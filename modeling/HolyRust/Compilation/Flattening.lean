import HolyRust.Compilation.StreamShape

/-!
# Function bodies as flattened syntax

A body is read into a syntax tree, with the checks of the parser but without its stream,
and the tree says which words it stands for.  The parser, which unrolls loops by copying
inside the very buffer it appends to, produces those words whenever they fit.
-/

namespace HolyRust
namespace Compilation

open Foundation
open Capabilities

/-!
## Syntax trees
-/

/-- A statement of a body, its operands evaluated. -/
inductive Stmt where
  | block (b : Block)
  | call (name : List Byte)
  | expr
  | loop (count : Nat) (body : List Stmt)

/-- The stored body of a function. -/
def Compiler.bodyOf (c : Compiler) (name : List Byte) : List Word :=
  match c.findFn name with
  | some i => (c.fns i).body
  | none => []

mutual

def Stmt.flatten (prims : Prims) (c : Compiler) : Stmt -> List Word
  | .block b => b.words prims
  | .call name => c.bodyOf name
  | .expr => []
  | .loop count body => (List.replicate count (flattenAll prims c body)).flatten

def flattenAll (prims : Prims) (c : Compiler) : List Stmt -> List Word
  | [] => []
  | stmt :: body => stmt.flatten prims c ++ flattenAll prims c body

end

/-- A `poke` or `peek` statement after its keyword. -/
def readPoke (env : Env) (fuel : Nat) : ParseM Stmt := do
  let addr <- scanning (parseAtomicTerm env fuel)
  let val <- scanning (fun c => evalExpr env c fuel none)
  expectSemicolon
  requireAccess env addr
  pure (.block (.poke addr val))

def readPeek (env : Env) (fuel : Nat) : ParseM Stmt := do
  let addr <- scanning (parseAtomicTerm env fuel)
  expectSemicolon
  requireAccess env addr
  pure (.block (.peek addr))

mutual

/-- One statement of a body; nothing is emitted. -/
def readBodyStmt (env : Env) : Nat -> ParseM Stmt
  | 0 => throw .fuel
  | fuel + 1 => do
      let tok <- nextToken
      match tok with
      | .identifier id =>
          if id = ascii "poke" then
            readPoke env fuel
          else if id = ascii "peek" then
            readPeek env fuel
          else if id = ascii "loop" then do
            let count <- loopCount env fuel
            expectToken .lBrace
            let body <- readBlock env fuel
            pure (.loop count.toNat body)
          else do
            let ahead <- peekToken
            if ahead = .lParen then do
              callTail
              let _ <- getFnBody id
              pure (.call id)
            else do
              let _ <- scanning (fun c => evalExpr env c fuel (some (.identifier id)))
              expectSemicolon
              pure .expr
      | _ => reject .unexpectedToken

/-- Statements up to and including the closing brace. -/
def readBlock (env : Env) : Nat -> ParseM (List Stmt)
  | 0 => throw .fuel
  | fuel + 1 => do
      let tok <- peekToken
      if tok = .rBrace then do
        let _ <- nextToken
        pure []
      else if tok = .eof then reject .unexpectedToken
      else do
        let stmt <- readBodyStmt env fuel
        let body <- readBlock env fuel
        pure (stmt :: body)

end

/-- `fn NAME() { .. }`: the name and the body. -/
def readFn (env : Env) (fuel : Nat) : ParseM (NameBuf × List Stmt) := do
  expectToken .kwFn
  let name <- expectName
  expectToken .lParen
  expectToken .rParen
  expectToken .lBrace
  let body <- readBlock env fuel
  pure (name, body)

/-- The line is a definition of `name`, and every statement of its body is valid. -/
def ReadsFn (env : Env) (c : Compiler) (line : List Byte) (name : NameBuf)
    (body : List Stmt) : Prop :=
  exists s, readFn env (parseFuel line) (startState c line) = .ok (name, body) s

/-!
## Parsers that only read
-/

/-- The parser sees the tables but not the stream, and leaves the compiler alone. -/
def Reading (x : ParseM α) : Prop := Blind x ∧ Quiet x

theorem composes_reading : Composes (fun x _ => Reading x) where
  onPure a := ⟨blind_pure a, composes_quiet.onPure a⟩
  onReject e := ⟨blind_throw _, composes_quiet.onReject e⟩
  onBind hx hf := ⟨blind_bind hx.left fun a => (hf a).left,
    quiet_bind hx.right fun a => (hf a).right⟩

theorem onTokens_reading : OnTokens (fun x _ => Reading x) where
  toComposes := composes_reading
  onNext := ⟨onTokens_blind.onNext, onTokens_quiet.onNext⟩
  onPeek := ⟨onTokens_blind.onPeek, onTokens_quiet.onPeek⟩

theorem reading_requireAccess (env : Env) (addr : Word) : Reading (requireAccess env addr) := by
  refine ⟨blind_requireAccess env addr, fun s => ?_⟩
  unfold requireAccess
  cases checkAccess env.target env.registry addr with
  | ok u => exact rfl
  | error cap => exact trivial

theorem onOperands_reading (env : Env) (fuel : Nat) :
    OnOperands (fun x _ => Reading x) env env fuel fuel where
  toComposes := composes_reading
  target := rfl
  prims := rfl
  onTerm := ⟨blind_atomicTerm env fuel, quiet_scanning _⟩
  onExpr := ⟨blind_evalExpr env fuel none, quiet_scanning _⟩
  onSemicolon := related_expectSemicolon onTokens_reading
  onAccess := reading_requireAccess env

theorem reading_evalExpr (env : Env) (fuel : Nat) (first : Option Token) :
    Reading (scanning fun c => evalExpr env c fuel first) :=
  ⟨blind_evalExpr env fuel first, quiet_scanning _⟩

/-!
## Compiling what is read
-/

/-- From states that differ in the stream at most: where `y` reads something, `x` fills
the stream with what that stands for; where `y` fails, `x` fails. -/
def Compiles (c : Compiler) (emitted : α -> List Word) (x : ParseM Unit) (y : ParseM α) :
    Prop :=
  forall s t, s.SameButStream t -> t.comp.fns = c.fns ->
    match y t with
    | .ok a t' => t'.comp = t.comp ∧ Fills (emitted a) s t' (x s)
    | .error _ _ => exists e s', x s = .error e s'

section Rules

variable {c : Compiler}

theorem compiles_emitter {emitted : α -> List Word} {x : ParseM Unit} (a : α)
    (hx : Emitter (emitted a) x) : Compiles c emitted x (pure a) := by
  intro s t hst _
  exact ⟨rfl, fills_of_same (hx s) hst⟩

/-- A part that both sides read alike. -/
theorem compiles_reading {emitted : β -> List Word} {p : ParseM α} {x : α -> ParseM Unit}
    {y : α -> ParseM β} (hp : Reading p) (hxy : forall a, Compiles c emitted (x a) (y a)) :
    Compiles c emitted (p >>= x) (p >>= y) := by
  rintro s t ⟨stream, rfl⟩ hfns
  have hanswer := hp.left s stream
  have hs := hp.right s
  have ht := hp.right { s with comp := s.comp.withStream stream }
  rw [bind_apply, bind_apply]
  revert hanswer hs ht
  unfold Sat
  cases p s with
  | ok a s1 =>
      cases p { s with comp := s.comp.withStream stream } with
      | ok b t1 =>
          rintro ⟨rfl, hsame⟩ hs ht
          have hrest := hxy b s1 t1 hsame (by rw [ht]; exact hfns)
          dsimp only
          cases hy : y b t1 with
          | error e t' =>
              rw [hy] at hrest
              exact hrest
          | ok b' t' =>
              rw [hy] at hrest
              have hwords : s1.words = s.words ++ [] := by
                rw [List.append_nil]
                exact congrArg (fun comp => comp.stream.words) hs
              exact ⟨hrest.left.trans ht, fills_after hwords hrest.right⟩
      | error e t1 => exact False.elim
  | error e s1 =>
      cases p { s with comp := s.comp.withStream stream } with
      | ok b t1 => exact False.elim
      | error e' t1 => exact fun _ _ _ => ⟨e, s1, rfl⟩

theorem compiles_ite {emitted : α -> List Word} {p : Prop} [Decidable p] {x x' : ParseM Unit}
    {y y' : ParseM α} (h : Compiles c emitted x y) (h' : Compiles c emitted x' y') :
    Compiles c emitted (if p then x else x') (if p then y else y') := by
  by_cases hp : p
  · rw [if_pos hp, if_pos hp]
    exact h
  · rw [if_neg hp, if_neg hp]
    exact h'

theorem compiles_throw (emitted : α -> List Word) (e : Abort) :
    Compiles c emitted (throw e) (throw e) :=
  fun s _ _ _ => ⟨e, s, rfl⟩

theorem compiles_seq {f : α -> List Word} {g : β -> List Word} {emitted : γ -> List Word}
    {k : α -> β -> γ} {x x' : ParseM Unit} {y : ParseM α} {y' : ParseM β}
    (hfirst : Compiles c f x y) (hsecond : Compiles c g x' y')
    (hk : forall a b, emitted (k a b) = f a ++ g b) :
    Compiles c emitted (x >>= fun _ => x') (do
      let a <- y
      let b <- y'
      pure (k a b)) := by
  intro s t hst hfns
  have hone := hfirst s t hst hfns
  rw [bind_apply (x := y)]
  cases hy : y t with
  | error e t' =>
      rw [hy] at hone
      obtain ⟨e', s', hx⟩ := hone
      exact ⟨e', s', by rw [bind_apply, hx]⟩
  | ok a t1 =>
      rw [hy] at hone
      obtain ⟨hcomp, hfills⟩ := hone
      have hfns1 : t1.comp.fns = c.fns := by
        rw [hcomp]
        exact hfns
      -- What the second part reads does not depend on how the first part ended.
      have hread := hsecond t1 t1 ⟨t1.comp.stream, rfl⟩ hfns1
      have htwo := fun s1 hsame => hsecond s1 t1 hsame hfns1
      dsimp only
      rw [bind_apply (x := y')]
      cases hy' : y' t1 with
      | error e t' =>
          simp only [hy'] at htwo
          rw [bind_apply]
          cases hx : x s with
          | error e' s1 => exact ⟨e', s1, rfl⟩
          | ok u s1 =>
              rw [hx] at hfills
              exact htwo s1 hfills.left
      | ok b t2 =>
          simp only [hy'] at htwo hread
          refine ⟨hread.left.trans hcomp, ?_⟩
          rw [hk]
          exact fills_seq hfills fun s1 hsame _ => (htwo s1 hsame).right

/-- A body and its replays: one copy for each round and the first. -/
theorem compiles_unrolled {f : α -> List Word} {emitted : β -> List Word} {k : α -> β}
    {x : ParseM Unit} {y : ParseM α} (hxy : Compiles c f x y) (rounds : Nat)
    (hk : forall a, emitted (k a) = (List.replicate (rounds + 1) (f a)).flatten) :
    Compiles c emitted (do
      let before <- getStream
      x
      let after <- getStream
      unroll before.words.length (after.words.length - before.words.length) rounds)
      (y >>= fun a => pure (k a)) := by
  intro s t hst hfns
  have hbody := hxy s t hst hfns
  have hstart : (do
      let before <- getStream
      x
      let after <- getStream
      unroll before.words.length (after.words.length - before.words.length) rounds :
        ParseM Unit) s = (do
      x
      let after <- getStream
      unroll s.words.length (after.words.length - s.words.length) rounds) s := rfl
  rw [hstart, bind_apply (x := y)]
  cases hy : y t with
  | error e t' =>
      rw [hy] at hbody
      obtain ⟨e', s', hx⟩ := hbody
      exact ⟨e', s', by rw [bind_apply, hx]⟩
  | ok a t1 =>
      rw [hy] at hbody
      obtain ⟨hcomp, hfills⟩ := hbody
      refine ⟨hcomp, ?_⟩
      rw [hk, List.replicate_succ, List.flatten_cons]
      refine fills_seq hfills fun s1 hsame hwords => ?_
      have hlength : s1.words.length - s.words.length = (f a).length := by
        rw [hwords, List.length_append]
        lia
      have hsplit : s1.words = s.words ++ f a ++ [] := by
        rw [hwords, List.append_nil]
      have hrest := fills_unroll (f a) s.words [] rounds s1 hsplit
      rw [← hlength] at hrest
      exact fills_of_same hrest hsame

end Rules

/-!
## Bodies
-/

section Bodies

variable {env : Env} {c : Compiler}

theorem compiles_pokeStmt (fuel : Nat) :
    Compiles c (Stmt.flatten env.prims c) (pokeStmt env fuel) (readPoke env fuel) := by
  have h := onOperands_reading env fuel
  refine compiles_reading h.onTerm fun addr => compiles_reading h.onExpr fun val => ?_
  refine compiles_reading h.onSemicolon fun _ => compiles_reading (h.onAccess addr) fun _ => ?_
  refine compiles_emitter _ (emitter_bind (emitter_streamPushLit env addr) ?_)
  exact emitter_bind (emitter_streamPushLit env val) (emitter_streamPush _)

theorem compiles_peekStmt (fuel : Nat) :
    Compiles c (Stmt.flatten env.prims c) (peekStmt env fuel) (readPeek env fuel) := by
  have h := onOperands_reading env fuel
  refine compiles_reading h.onTerm fun addr => ?_
  refine compiles_reading h.onSemicolon fun _ => compiles_reading (h.onAccess addr) fun _ => ?_
  exact compiles_emitter _ (emitter_bind (emitter_streamPushLit env addr) (emitter_streamPush _))

theorem findFn_of_fns {c c' : Compiler} (h : c'.fns = c.fns) (name : List Byte) :
    c'.findFn name = c.findFn name := by
  unfold Compiler.findFn Compiler.fnAllocated
  rw [h]

/-- The body that is spliced is the one in the table, whatever the stream holds. -/
theorem compiles_spliceCall (name : List Byte) :
    Compiles c (Stmt.flatten env.prims c) (spliceCall name)
      (getFnBody name >>= fun _ => pure (.call name)) := by
  intro s t hst hfns
  have hfind : t.comp.findFn name = c.findFn name := findFn_of_fns hfns name
  have hfind' : s.comp.findFn name = c.findFn name := by
    rw [← hfind]
    exact findFn_of_fns (sameButStream_fns hst) name
  unfold spliceCall
  rw [bind_apply, bind_apply]
  cases hc : c.findFn name with
  | none =>
      rw [getFnBody_of_none (hfind.trans hc), getFnBody_of_none (hfind'.trans hc)]
      exact ⟨_, _, rfl⟩
  | some i =>
      rw [getFnBody_of_some (hfind.trans hc), getFnBody_of_some (hfind'.trans hc)]
      have hbody : (s.comp.fns i).body = c.bodyOf name := by
        unfold Compiler.bodyOf
        rw [hc, sameButStream_fns hst, hfns]
      refine ⟨rfl, fills_of_same ?_ hst⟩
      dsimp only
      rw [hbody]
      exact emitter_pushWords _ s

/-- A count that is accepted is positive. -/
theorem compiles_loopCount {emitted : α -> List Word} {fuel : Nat} {x : Word -> ParseM Unit}
    {y : Word -> ParseM α}
    (hxy : forall count, 0 < count.toNat -> Compiles c emitted (x count) (y count)) :
    Compiles c emitted (loopCount env fuel >>= x) (loopCount env fuel >>= y) := by
  unfold loopCount
  rw [bind_assoc, bind_assoc]
  refine compiles_reading (onOperands_reading env fuel).onTerm fun count => ?_
  by_cases hbad : count = 0#32 ∨ maxLoopUnroll < count.toNat
  · rw [if_pos hbad]
    exact compiles_throw emitted _
  · rw [if_neg hbad, pure_bind, pure_bind]
    refine hxy count (Nat.pos_of_ne_zero fun hzero => hbad (Or.inl ?_))
    exact BitVec.eq_of_toNat_eq hzero

theorem compiles_bodyStmt_succ {fuel : Nat}
    (hblock : Compiles c (flattenAll env.prims c) (parseBlock env fuel) (readBlock env fuel)) :
    Compiles c (Stmt.flatten env.prims c) (parseBodyStmt env (fuel + 1))
      (readBodyStmt env (fuel + 1)) := by
  unfold parseBodyStmt readBodyStmt
  refine compiles_reading onTokens_reading.onNext fun tok => ?_
  cases tok with
  | identifier id =>
      refine compiles_ite (compiles_pokeStmt fuel) ?_
      refine compiles_ite (compiles_peekStmt fuel) (compiles_ite ?_ ?_)
      · refine compiles_loopCount fun count hcount => ?_
        have hbody : Compiles c (flattenAll env.prims c)
            (expectToken .lBrace >>= fun _ => parseBlock env fuel)
            (expectToken .lBrace >>= fun _ => readBlock env fuel) :=
          compiles_reading (related_expectToken onTokens_reading _) fun _ => hblock
        have hcopies : forall body, Stmt.flatten env.prims c (.loop count.toNat body) =
            (List.replicate (count.toNat - 1 + 1) (flattenAll env.prims c body)).flatten := by
          intro body
          rw [Stmt.flatten, Nat.sub_add_cancel hcount]
        have hloop : Compiles c (Stmt.flatten env.prims c)
            (do
              let before <- getStream
              expectToken .lBrace >>= fun _ => parseBlock env fuel
              let after <- getStream
              unroll before.words.length (after.words.length - before.words.length)
                (count.toNat - 1))
            ((expectToken .lBrace >>= fun _ => readBlock env fuel) >>= fun body =>
              pure (.loop count.toNat body)) :=
          compiles_unrolled hbody _ hcopies
        simp only [bind_assoc] at hloop
        exact hloop
      · refine compiles_reading onTokens_reading.onPeek fun ahead => compiles_ite ?_ ?_
        · exact compiles_reading (related_callTail onTokens_reading) fun _ =>
            compiles_spliceCall id
        · refine compiles_reading (reading_evalExpr env fuel _) fun _ => ?_
          have hend : Compiles c (Stmt.flatten env.prims c) (expectSemicolon >>= fun _ => pure ())
              (expectSemicolon >>= fun _ => pure .expr) :=
            compiles_reading (related_expectSemicolon onTokens_reading) fun _ =>
              compiles_emitter Stmt.expr emitter_pure
          rw [bind_pure_unit] at hend
          exact hend
  | _ => exact compiles_throw _ _

theorem compiles_block_succ {fuel : Nat}
    (hstmt : Compiles c (Stmt.flatten env.prims c) (parseBodyStmt env fuel)
      (readBodyStmt env fuel))
    (hblock : Compiles c (flattenAll env.prims c) (parseBlock env fuel) (readBlock env fuel)) :
    Compiles c (flattenAll env.prims c) (parseBlock env (fuel + 1))
      (readBlock env (fuel + 1)) := by
  unfold parseBlock readBlock
  refine compiles_reading onTokens_reading.onPeek fun tok => compiles_ite ?_ ?_
  · refine compiles_reading onTokens_reading.onNext fun _ => ?_
    exact compiles_emitter [] emitter_pure
  · refine compiles_ite (compiles_throw _ _) ?_
    exact compiles_seq hstmt hblock fun stmt body => by rw [flattenAll]

/-- Statements and blocks are parsed in turn, so the induction is on both. -/
theorem compiles_body (fuel : Nat) :
    Compiles c (Stmt.flatten env.prims c) (parseBodyStmt env fuel) (readBodyStmt env fuel) ∧
      Compiles c (flattenAll env.prims c) (parseBlock env fuel) (readBlock env fuel) := by
  induction fuel with
  | zero => exact ⟨compiles_throw _ _, compiles_throw _ _⟩
  | succ fuel ih =>
      exact ⟨compiles_bodyStmt_succ ih.right, compiles_block_succ ih.left ih.right⟩

end Bodies

/-!
## Definitions
-/

/-- The words of a body are kept under `name` if there are few enough of them, and a slot;
the addresses that were checked for them are `checked`. -/
def Stores (c : Compiler) (name : NameBuf) (ws checked : List Word) :
    EStateM.Result Abort ParseState Outcome -> Prop
  | .ok outcome s' => outcome = .fnDefined name ∧ s'.words = ws ∧ ws.length ≤ fnBodyWords ∧
      s'.checked = checked
  | .error e _ => e = .error .streamFull ∧ fnBodyWords < ws.length ∨
      exists err, c.allocFnSlot name = .error err

/-- Where `y` reads a definition, `x` stores its flattening; where `y` fails, `x` defines
nothing. -/
def Defines (env : Env) (c : Compiler) (x : ParseM Outcome)
    (y : ParseM (NameBuf × List Stmt)) : Prop :=
  forall s, s.comp = c ->
    match y s with
    | .ok (name, body) t => Stores c name (flattenAll env.prims c body) t.checked (x s)
    | .error _ _ => forall name s', x s ≠ .ok (.fnDefined name) s'

section Definitions

variable {env : Env} {c : Compiler}

theorem defines_bind {p : ParseM α} {x : α -> ParseM Outcome}
    {y : α -> ParseM (NameBuf × List Stmt)} (hp : Reading p)
    (hxy : forall a, Defines env c (x a) (y a)) : Defines env c (p >>= x) (p >>= y) := by
  intro s hs
  have hquiet := hp.right s
  rw [bind_apply, bind_apply]
  cases h : p s with
  | ok a s1 => exact hxy a s1 ((sat_of_ok hquiet h).trans hs)
  | error e s1 => exact fun _ _ heq => by cases heq

/-- A line that is no definition defines no function. -/
theorem defines_reject {x : ParseM Outcome} {y : ParseM (NameBuf × List Stmt)} {e : Abort}
    (hx : Returns (fun o => forall name, o ≠ .fnDefined name) x) (hy : y = throw e) :
    Defines env c x y := by
  intro s _
  rw [hy, throw_apply]
  exact fun name s' hok => returns_of_ok hx hok name rfl

theorem stores_defineFn {name : NameBuf} {s : ParseState} {ws : List Word}
    (hfns : s.comp.fns = c.fns) (hwords : s.words = ws) :
    Stores c name ws s.checked ((defineFn name >>= fun _ => pure (.fnDefined name)) s) := by
  subst hwords
  unfold defineFn
  rw [bind_apply, bind_apply, get_apply]
  dsimp only
  have hslot : s.comp.allocFnSlot name = c.allocFnSlot name := by
    unfold Compiler.allocFnSlot Compiler.findFn Compiler.fnAllocated
    rw [hfns]
  by_cases hlength : s.comp.stream.words.length ≤ fnBodyWords
  · rw [dif_pos hlength, hslot]
    cases halloc : c.allocFnSlot name with
    | ok i => exact ⟨rfl, rfl, hlength, rfl⟩
    | error err => exact Or.inr ⟨err, halloc⟩
  · rw [dif_neg hlength]
    exact Or.inl ⟨rfl, Nat.lt_of_not_le hlength⟩

/-- From the opening brace on.  The stream is longer than a slot, so a body that overflows
it does not fit the slot either. -/
theorem defines_block (fuel : Nat) (name : NameBuf) :
    Defines env c
      (do
        streamReset
        parseBlock env fuel
        defineFn name
        pure (.fnDefined name))
      (do
        let body <- readBlock env fuel
        pure (name, body)) := by
  intro s hs
  have hcompiles : Compiles c (flattenAll env.prims c) (parseBlock env fuel)
      (readBlock env fuel) := (compiles_body fuel).right
  have hblock := hcompiles s.fresh s ⟨s.comp.stream, rfl⟩ (congrArg Compiler.fns hs)
  have hstart : (do
      streamReset
      parseBlock env fuel
      defineFn name
      pure (Outcome.fnDefined name)) s = (do
      parseBlock env fuel
      defineFn name
      pure (Outcome.fnDefined name)) s.fresh := rfl
  rw [hstart, bind_apply, bind_apply]
  cases hread : readBlock env fuel s with
  | error e t =>
      rw [hread] at hblock
      obtain ⟨e', s', hparse⟩ := hblock
      rw [hparse]
      exact fun _ _ heq => by cases heq
  | ok body t =>
      rw [hread] at hblock
      obtain ⟨hcomp, hfills⟩ := hblock
      cases hparse : parseBlock env fuel s.fresh with
      | error e s1 =>
          rw [hparse] at hfills
          have hroom : fnBodyWords < maxStreamWords := by decide
          have hlong := hfills.right
          rw [show s.fresh.words.length = 0 from rfl, Nat.zero_add] at hlong
          exact Or.inl ⟨hfills.left, Nat.lt_trans hroom hlong⟩
      | ok u s1 =>
          rw [hparse] at hfills
          have hfns : s1.comp.fns = c.fns := by
            rw [sameButStream_fns hfills.left, hcomp, hs]
          show Stores c name _ t.checked _
          rw [← sameButStream_checked hfills.left]
          exact stores_defineFn hfns hfills.right

theorem answers_ne_fnDefined {command : Command} {outcome : Outcome}
    (h : Answers env command outcome) (name : NameBuf) : outcome ≠ .fnDefined name := by
  rintro rfl
  cases command with
  | help | banner | sysAudit | bench | storeList | flashTest | poolFree | poolStats => cases h
  | capClaim | capDrop | store | load | loop | poolAlloc | spawn =>
      obtain ⟨_, heq⟩ := h
      cases heq
  | peek | pwmDuty | spiTx =>
      obtain ⟨_, heq, _⟩ := h
      cases heq
  | poke | regSetBit | regClrBit | pwm =>
      obtain ⟨_, _, heq, _⟩ := h
      cases heq

theorem run_ne_fnDefined {outcome : Outcome} (h : exists program, outcome = .run program)
    (name : NameBuf) : outcome ≠ .fnDefined name := by
  rintro rfl
  obtain ⟨_, heq⟩ := h
  cases heq

theorem defines_parseLine (fuel : Nat) : Defines env c (parseLine env fuel) (readFn env fuel) := by
  have hvalue : forall first,
      Returns (fun o => forall name, o ≠ .fnDefined name) (valueCommand env fuel first) :=
    fun first => returns_mono (returns_valueCommand env fuel first) fun _ => run_ne_fnDefined
  unfold parseLine readFn expectToken
  rw [bind_assoc]
  refine defines_bind onTokens_reading.onNext fun first => ?_
  cases first with
  | kwFn =>
      refine defines_bind (related_expectName onTokens_reading) fun name => ?_
      refine defines_bind (related_expectToken onTokens_reading _) fun _ => ?_
      refine defines_bind (related_expectToken onTokens_reading _) fun _ => ?_
      refine defines_bind (related_expectToken onTokens_reading _) fun _ => ?_
      exact defines_block fuel name
  | kwLet =>
      refine defines_reject ?_ rfl
      exact returns_bind fun name => returns_bind fun _ => returns_bind fun value =>
        returns_bind fun _ => returns_bind fun _ => returns_bind fun _ => returns_bind fun _ =>
          returns_pure fun _ heq => by cases heq
  | identifier id =>
      refine defines_reject ?_ rfl
      show Returns _ (parseCommand env fuel id)
      unfold parseCommand
      cases commandOf id with
      | some command =>
          exact returns_mono (returns_runCommand env fuel command) fun _ => answers_ne_fnDefined
      | none => exact returns_mono (returns_callOrValue env fuel id) fun _ => run_ne_fnDefined
  | literal v => exact defines_reject (hvalue _) rfl
  | operator op => exact defines_reject (hvalue _) rfl
  | lParen => exact defines_reject (hvalue _) rfl
  | _ => exact defines_reject (returns_throw _ _) rfl

end Definitions

section Lines

variable {env : Env} {c : Compiler} {line : List Byte} {name : NameBuf} {body : List Stmt}

theorem stores_of_readFn {t : ParseState}
    (hread : readFn env (parseFuel line) (startState c line) = .ok (name, body) t) :
    Stores c name (flattenAll env.prims c body) t.checked (parse env c line) := by
  have hline : Defines env c (parseLine env (parseFuel line)) (readFn env (parseFuel line)) :=
    defines_parseLine _
  have hstores := hline (startState c line) rfl
  rw [hread] at hstores
  exact hstores

theorem exists_readsFn {s' : ParseState} (h : parse env c line = .ok (.fnDefined name) s') :
    exists body, ReadsFn env c line name body := by
  have hline : Defines env c (parseLine env (parseFuel line)) (readFn env (parseFuel line)) :=
    defines_parseLine _
  cases hread : readFn env (parseFuel line) (startState c line) with
  | error e t =>
      have hnone := hline (startState c line) rfl
      rw [hread] at hnone
      exact absurd h (hnone name s')
  | ok definition t =>
      obtain ⟨name', body⟩ := definition
      have hstores := stores_of_readFn hread
      rw [h] at hstores
      cases hstores.left
      exact ⟨body, t, hread⟩

theorem stored_of_fnDefined {s' : ParseState} (h : parse env c line = .ok (.fnDefined name) s') :
    exists body, ReadsFn env c line name body ∧
      s'.comp.HasFn name.bytes (flattenAll env.prims c body) := by
  obtain ⟨body, t, hread⟩ := exists_readsFn h
  have hstores := stores_of_readFn hread
  rw [h] at hstores
  refine ⟨body, ⟨t, hread⟩, ?_⟩
  rw [← hstores.right.left]
  exact hasFn_of_fnDefined h

theorem fits_of_readsFn (hreads : ReadsFn env c line name body)
    (hfresh : c.findFn name.bytes = none) (hfree : exists i, (c.fns i).name.bytes.length = 0) :
    ((exists s', parse env c line = .ok (.fnDefined name) s') ↔
      (flattenAll env.prims c body).length ≤ fnBodyWords) ∧
    (fnBodyWords < (flattenAll env.prims c body).length ->
      exists s', parse env c line = .error (.error .streamFull) s') := by
  obtain ⟨i, halloc⟩ := allocFnSlot_of_free hfresh hfree
  obtain ⟨t, hread⟩ := hreads
  have hstores := stores_of_readFn hread
  cases hparse : parse env c line with
  | ok outcome s' =>
      rw [hparse] at hstores
      obtain ⟨rfl, _, hlength, _⟩ := hstores
      exact ⟨⟨fun _ => hlength, fun _ => ⟨s', rfl⟩⟩,
        fun hlong => absurd hlength (Nat.not_le_of_lt hlong)⟩
  | error e s' =>
      rw [hparse] at hstores
      rcases hstores with ⟨rfl, hlong⟩ | ⟨err, herr⟩
      · have hnot := Nat.not_le_of_lt hlong
        refine ⟨⟨fun haccepted => ?_, fun hshort => absurd hshort hnot⟩, fun _ => ⟨s', rfl⟩⟩
        obtain ⟨_, hok⟩ := haccepted
        cases hok
      · rw [halloc] at herr
        cases herr

end Lines

/-- Unrolling and inlining store the flattening of the body; it is refused only when it is
too long for a slot, however much of it went through the stream before. -/
theorem parse_fn_flattens (env : Env) (c : Compiler) (line : List Byte) :
    (forall name s', parse env c line = .ok (.fnDefined name) s' ->
      exists body, ReadsFn env c line name body ∧
        s'.comp.HasFn name.bytes (flattenAll env.prims c body)) ∧
    forall name body, ReadsFn env c line name body -> c.findFn name.bytes = none ->
      (exists i, (c.fns i).name.bytes.length = 0) ->
      ((exists s', parse env c line = .ok (.fnDefined name) s') ↔
        (flattenAll env.prims c body).length ≤ fnBodyWords) ∧
      (fnBodyWords < (flattenAll env.prims c body).length ->
        exists s', parse env c line = .error (.error .streamFull) s') := by
  constructor
  · exact fun name s' h => stored_of_fnDefined h
  · exact fun name body hreads hfresh hfree => fits_of_readsFn hreads hfresh hfree

/-- `fn f(){loop 2{loop 3{peek 0x20000000;}}}` -/
def nestedLine : List Byte :=
  ascii "fn f()\x7bloop 2\x7bloop 3\x7bpeek 0x20000000;\x7d\x7d\x7d"

/-- Nested loops multiply: six copies of a three-word block. -/
theorem parse_fn_flattens_nested :
    exists name body s', ReadsFn Env.idle Compiler.new nestedLine name body ∧
      flattenAll Env.idle.prims Compiler.new body =
        (List.replicate 6 ((Block.peek 0x20000000#32).words Env.idle.prims)).flatten ∧
      parse Env.idle Compiler.new nestedLine = .ok (.fnDefined name) s' := by
  have hread : (match readFn Env.idle (parseFuel nestedLine)
      (startState Compiler.new nestedLine) with
    | .ok (_, body) _ => decide (flattenAll Env.idle.prims Compiler.new body =
        (List.replicate 6 ((Block.peek 0x20000000#32).words Env.idle.prims)).flatten)
    | .error _ _ => false) = true := by
    decide +kernel
  split at hread
  · rename_i name body t hok
    have hwords := of_decide_eq_true hread
    have hreads : ReadsFn Env.idle Compiler.new nestedLine name body := ⟨t, hok⟩
    obtain ⟨haccepted, _⟩ := (parse_fn_flattens Env.idle Compiler.new nestedLine).right
      name body hreads rfl ⟨⟨0, by decide⟩, rfl⟩
    obtain ⟨s', hparse⟩ := haccepted.mpr (by rw [hwords]; decide)
    exact ⟨name, body, s', hreads, hwords, hparse⟩
  · cases hread

end Compilation
end HolyRust
