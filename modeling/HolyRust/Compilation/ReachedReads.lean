import HolyRust.Compilation.ReachedPeeks

/-!
# Reads while compiling

The parser and the walk over the tokens of its line go through the same places: the walk
reaches what the parser reads.  Where the parser fails the walk stops, so their results
are compared as well, and behind the last expression of a line nothing is read any more.
-/

namespace HolyRust
namespace Compilation

open Foundation
open Capabilities
open Walk

/-!
## Programs and walks
-/

theorem Walk.bind_apply (x : Walk α) (f : α -> Walk β) (p : Place) :
    (x >>= f) p =
      match (x p).2 with
      | none => ((x p).1, none)
      | some (a, p') => ((x p).1 ++ (f a p').1, (f a p').2) := rfl

/-- From states and places that `At` relates: the walk reaches what the program reads, and
the results of both, if there are any, are related by `V`. -/
def Follows (At : σ -> Place -> Prop) (reads : σ -> List Word) (V : α -> β -> Prop)
    (x : EStateM Abort σ α) (w : Walk β) : Prop :=
  forall s p, At s p -> Sat x s
    (fun a s' => exists b p', (w p).2 = some (b, p') ∧ V a b ∧ At s' p' ∧
      reads s' = (w p).1.reverse ++ reads s)
    (fun _ s' => (w p).2 = none ∧ reads s' = (w p).1.reverse ++ reads s)

section Rules

variable {At : σ -> Place -> Prop} {reads : σ -> List Word}

theorem follows_pure {V : α -> β -> Prop} {a : α} {b : β} (h : V a b) :
    Follows At reads V (pure a) (pure b) :=
  fun _ p hp => ⟨b, p, rfl, h, hp, rfl⟩

theorem follows_throw (V : α -> β -> Prop) (e : Abort) :
    Follows At reads V (throw e) stop :=
  fun _ _ _ => ⟨rfl, rfl⟩

theorem follows_bind {V : α -> β -> Prop} {V' : α' -> β' -> Prop} {x : EStateM Abort σ α}
    {w : Walk β} {f : α -> EStateM Abort σ α'} {g : β -> Walk β'}
    (hx : Follows At reads V x w) (hf : forall a b, V a b -> Follows At reads V' (f a) (g b)) :
    Follows At reads V' (x >>= f) (w >>= g) := by
  intro s p hp
  rw [sat_bind, Walk.bind_apply]
  refine sat_mono (hx s p hp) ?_ ?_
  · rintro a s' ⟨b, p', hw, hv, hp', hreads⟩
    have happend : ((w p).1 ++ (g b p').1).reverse ++ reads s =
        (g b p').1.reverse ++ reads s' := by
      rw [hreads, List.reverse_append, List.append_assoc]
    rw [hw]
    dsimp only
    rw [happend]
    exact hf a b hv s' p' hp'
  · rintro e s' ⟨hw, hreads⟩
    rw [hw]
    exact ⟨rfl, hreads⟩

/-- Both hand on the same value. -/
theorem follows_bind_eq {V : α' -> β -> Prop} {x : EStateM Abort σ α} {w : Walk α}
    {f : α -> EStateM Abort σ α'} {g : α -> Walk β} (hx : Follows At reads Eq x w)
    (hf : forall a, Follows At reads V (f a) (g a)) :
    Follows At reads V (x >>= f) (w >>= g) := by
  refine follows_bind hx ?_
  rintro a _ rfl
  exact hf a

theorem follows_ite {V : α -> β -> Prop} {q : Prop} [Decidable q] {x x' : EStateM Abort σ α}
    {w w' : Walk β} (hx : Follows At reads V x w) (hx' : Follows At reads V x' w') :
    Follows At reads V (if q then x else x') (if q then w else w') := by
  by_cases hq : q
  · rw [if_pos hq, if_pos hq]
    exact hx
  · rw [if_neg hq, if_neg hq]
    exact hx'

end Rules

/-!
## Expressions
-/

section Expressions

variable (words : Nat)

structure Scan.At (s : Scan) (p : Place) : Prop where
  tokens : s.cur.Has p.tokens
  room : p.words = words

abbrev ScanFollows (x : ScanM α) (w : Walk α) : Prop :=
  Follows (Scan.At words) Scan.reads Eq x w

theorem scanFollows_next : ScanFollows words next take :=
  fun _ _ hp => ⟨_, _, rfl, (Cur.next_spec hp.tokens).1, ⟨(Cur.next_spec hp.tokens).2, hp.room⟩,
    rfl⟩

theorem scanFollows_peek : ScanFollows words peek look :=
  fun _ _ hp => ⟨_, _, rfl, (Cur.peek_spec hp.tokens).1, ⟨(Cur.peek_spec hp.tokens).2, hp.room⟩,
    rfl⟩

theorem scanFollows_fail (e : ParseError) : ScanFollows words (fail e : ScanM α) stop :=
  follows_throw Eq _

theorem scanFollows_pure (a : α) : ScanFollows words (pure a) (pure a) :=
  follows_pure rfl

theorem scanFollows_peekU32 (env : Env) (addr : Word) :
    ScanFollows words (peekU32 env addr) (reach env.mem addr) := by
  intro s p hp
  unfold peekU32
  rw [sat_bind, sat_modify]
  cases hmem : env.mem addr with
  | some v =>
      have hvalue : (reach env.mem addr p).2 = some (v, p) := by
        unfold reach
        rw [hmem, Option.map_some]
      exact ⟨v, p, hvalue, rfl, ⟨hp.tokens, hp.room⟩, rfl⟩
  | none =>
      have hfault : (reach env.mem addr p).2 = none := by
        unfold reach
        rw [hmem, Option.map_none]
      exact ⟨hfault, rfl⟩

theorem scanFollows_applyOperator (op : Byte) (acc rhs : Word) :
    ScanFollows words (applyOperator op acc rhs) (walkOperator op acc rhs) := by
  unfold applyOperator walkOperator calculate
  by_cases hadd : op = byte '+'
  · rw [if_pos hadd, if_pos hadd]
    exact scanFollows_pure words _
  rw [if_neg hadd, if_neg hadd]
  by_cases hsub : op = byte '-'
  · rw [if_pos hsub, if_pos hsub]
    exact scanFollows_pure words _
  rw [if_neg hsub, if_neg hsub]
  by_cases hmul : op = byte '*'
  · rw [if_pos hmul, if_pos hmul]
    exact scanFollows_pure words _
  rw [if_neg hmul, if_neg hmul]
  by_cases hzero : rhs = 0#32
  · rw [if_pos hzero, if_pos hzero, if_pos hzero, ite_self]
    exact scanFollows_fail words _
  · rw [if_neg hzero, if_neg hzero, if_neg hzero]
    by_cases hdiv : op = byte '/'
    · rw [if_pos hdiv, if_pos hdiv]
      exact scanFollows_pure words _
    · rw [if_neg hdiv, if_neg hdiv]
      exact scanFollows_pure words _

/-- The four expression parsers and their walks, for all of them at once. -/
structure ExprFollows (env : Env) (c : Compiler) (fuel : Nat) : Prop where
  onOperand : forall tok,
    ScanFollows words (operand env c fuel tok) (walkOperand env c.lookupSymbol fuel tok)
  onTerm : forall tok,
    ScanFollows words (resolveTerm env c fuel tok) (walkTerm env c.lookupSymbol fuel tok)
  onExpr : forall first,
    ScanFollows words (evalExpr env c fuel first) (walkExpr env c.lookupSymbol fuel first)
  onTail : forall acc,
    ScanFollows words (evalTail env c fuel acc) (walkTail env c.lookupSymbol fuel acc)

variable {words} {env : Env} {c : Compiler} {fuel : Nat}

theorem scanFollows_operand_succ (h : ExprFollows words env c fuel) (tok : Token) :
    ScanFollows words (operand env c (fuel + 1) tok)
      (walkOperand env c.lookupSymbol (fuel + 1) tok) := by
  unfold operand walkOperand
  refine follows_ite ?_ (h.onTerm tok)
  refine follows_bind_eq (h.onExpr none) fun v => ?_
  refine follows_bind_eq (scanFollows_next words) fun close => ?_
  exact follows_ite (scanFollows_pure words v) (scanFollows_fail words _)

theorem scanFollows_resolveTerm_succ (h : ExprFollows words env c fuel) (tok : Token) :
    ScanFollows words (resolveTerm env c (fuel + 1) tok)
      (walkTerm env c.lookupSymbol (fuel + 1) tok) := by
  unfold resolveTerm walkTerm
  cases tok with
  | literal v => exact scanFollows_pure words v
  | identifier id =>
      refine follows_ite ?_ ?_
      · refine follows_bind_eq (scanFollows_next words) fun first => ?_
        refine follows_bind_eq (h.onOperand first) fun addr => ?_
        exact scanFollows_peekU32 words env addr
      · cases c.lookupSymbol id with
        | some v => exact scanFollows_pure words v
        | none => exact scanFollows_fail words _
  | _ => exact scanFollows_fail words _

theorem scanFollows_evalExpr_succ (h : ExprFollows words env c fuel) (first : Option Token) :
    ScanFollows words (evalExpr env c (fuel + 1) first)
      (walkExpr env c.lookupSymbol (fuel + 1) first) := by
  have hrest : forall head, ScanFollows words (operand env c fuel head >>= evalTail env c fuel)
      (walkOperand env c.lookupSymbol fuel head >>= walkTail env c.lookupSymbol fuel) := by
    intro head
    exact follows_bind_eq (h.onOperand head) h.onTail
  unfold evalExpr walkExpr
  cases first with
  | some tok => exact follows_bind_eq (scanFollows_pure words tok) hrest
  | none => exact follows_bind_eq (scanFollows_next words) hrest

theorem scanFollows_evalTail_succ (h : ExprFollows words env c fuel) (acc : Word) :
    ScanFollows words (evalTail env c (fuel + 1) acc)
      (walkTail env c.lookupSymbol (fuel + 1) acc) := by
  unfold evalTail walkTail
  refine follows_bind_eq (scanFollows_peek words) fun tok => ?_
  cases tok with
  | operator op =>
      refine follows_ite ?_ (scanFollows_pure words acc)
      refine follows_bind_eq (scanFollows_next words) fun _ => ?_
      refine follows_bind_eq (scanFollows_next words) fun first => ?_
      refine follows_bind_eq (h.onOperand first) fun rhs => ?_
      exact follows_bind_eq (scanFollows_applyOperator words op acc rhs) h.onTail
  | _ => exact scanFollows_pure words acc

variable (words env c) in
theorem exprFollows (fuel : Nat) : ExprFollows words env c fuel := by
  induction fuel with
  | zero => constructor <;> intros <;> exact follows_throw Eq _
  | succ fuel ih =>
      exact ⟨scanFollows_operand_succ ih, scanFollows_resolveTerm_succ ih,
        scanFollows_evalExpr_succ ih, scanFollows_evalTail_succ ih⟩

end Expressions

/-!
## Statements
-/

section Statements

variable (env : Env) (symbols : List Byte -> Option Word)
  (fnLength : List Byte -> Option Nat)

/-- The parser is at these tokens, with a stream of this length, and knows these symbols
and functions. -/
structure ParseState.At (s : ParseState) (p : Place) : Prop where
  tokens : s.Has p.tokens
  room : p.words = s.comp.stream.words.length
  symbols : s.comp.lookupSymbol = symbols
  fns : s.comp.bodyLength = fnLength

def ParseState.reads (s : ParseState) : List Word := s.scan.reads

abbrev ParseFollows (V : α -> β -> Prop) (x : ParseM α) (w : Walk β) : Prop :=
  Follows (ParseState.At symbols fnLength) ParseState.reads V x w

theorem parseFollows_scanning {x : Compiler -> ScanM α} {w : Walk α}
    (h : forall c words, c.lookupSymbol = symbols -> ScanFollows words (x c) w) :
    ParseFollows symbols fnLength Eq (scanning x) w := by
  intro s p hp
  refine sat_scanning (sat_mono (h s.comp p.words hp.symbols s.scan p ⟨hp.tokens, rfl⟩) ?_ ?_)
  · rintro a scan ⟨b, p', hw, hv, hp', hreads⟩
    exact ⟨b, p', hw, hv, ⟨hp'.tokens, hp'.room.trans hp.room, hp.symbols, hp.fns⟩, hreads⟩
  · exact fun _ _ h => h

theorem parseFollows_next : ParseFollows symbols fnLength Eq nextToken take :=
  parseFollows_scanning symbols fnLength fun _ words _ => scanFollows_next words

theorem parseFollows_peek : ParseFollows symbols fnLength Eq peekToken look :=
  parseFollows_scanning symbols fnLength fun _ words _ => scanFollows_peek words

theorem parseFollows_pure (a : α) : ParseFollows symbols fnLength Eq (pure a) (pure a) :=
  follows_pure rfl

theorem parseFollows_reject (V : α -> β -> Prop) (e : ParseError) :
    ParseFollows symbols fnLength V (reject e) stop :=
  follows_throw V _

theorem parseFollows_evalExpr (fuel : Nat) (first : Option Token) :
    ParseFollows symbols fnLength Eq (scanning fun c => evalExpr env c fuel first)
      (walkExpr env symbols fuel first) := by
  refine parseFollows_scanning symbols fnLength ?_
  rintro c words rfl
  exact (exprFollows words env c fuel).onExpr first

theorem parseFollows_parseAtomicTerm (fuel : Nat) :
    ParseFollows symbols fnLength Eq (scanning (parseAtomicTerm env fuel))
      (walkAtomic env symbols fuel) := by
  refine parseFollows_scanning symbols fnLength ?_
  rintro c words rfl
  exact follows_bind_eq (scanFollows_next words) (exprFollows words env c fuel).onOperand

theorem parseFollows_expectToken (t : Token) :
    ParseFollows symbols fnLength Eq (expectToken t) (walkToken t) :=
  follows_bind_eq (parseFollows_next symbols fnLength) fun _ =>
    follows_ite (parseFollows_pure symbols fnLength ()) (parseFollows_reject symbols fnLength _ _)

theorem parseFollows_expectSemicolon :
    ParseFollows symbols fnLength Eq expectSemicolon walkSemicolon :=
  follows_bind_eq (parseFollows_next symbols fnLength) fun _ =>
    follows_ite (parseFollows_pure symbols fnLength ()) (parseFollows_reject symbols fnLength _ _)

theorem parseFollows_expectName :
    ParseFollows symbols fnLength (fun _ _ => True) expectName walkName := by
  refine follows_bind_eq (parseFollows_next symbols fnLength) fun tok => ?_
  cases tok with
  | identifier id =>
      unfold NameBuf.fromSlice
      by_cases h : id.length ≤ nameMax
      · dsimp only
        rw [dif_pos h, if_pos h]
        exact follows_pure trivial
      · dsimp only
        rw [dif_neg h, if_neg h]
        exact parseFollows_reject symbols fnLength _ _
  | _ => exact parseFollows_reject symbols fnLength _ _

theorem parseFollows_requireAccess (addr : Word) :
    ParseFollows symbols fnLength Eq (requireAccess env addr) (walkAccess env addr) := by
  unfold requireAccess walkAccess
  cases hcheck : checkAccess env.target env.registry addr with
  | ok u =>
      rw [if_pos (show Accessible env.target env.registry addr from hcheck)]
      exact fun _ p hp => ⟨(), p, rfl, rfl, ⟨hp.tokens, hp.room, hp.symbols, hp.fns⟩, rfl⟩
  | error cap =>
      have hrefused : ¬ Accessible env.target env.registry addr := by
        intro haccess
        cases hcheck.symm.trans haccess
      rw [if_neg hrefused]
      exact parseFollows_reject symbols fnLength _ _

/-!
## Room in the stream
-/

/-- Room for two parts is room for one after the other. -/
theorem room_add (m n : Nat) : (do room m; room n) = room (m + n) := by
  funext p
  rw [Walk.bind_apply]
  unfold room
  by_cases hm : p.words + m ≤ maxStreamWords
  · rw [if_pos hm]
    dsimp only
    rw [Nat.add_assoc]
    rfl
  · rw [if_neg hm, if_neg (by lia)]

theorem parseFollows_getStream :
    ParseFollows symbols fnLength (fun stream pl => stream.words.length = pl.words)
      getStream place :=
  fun _ p hp => ⟨p, p, rfl, hp.room.symm, hp, rfl⟩

theorem parseFollows_room_zero : ParseFollows symbols fnLength Eq (pure ()) (room 0) := by
  intro s p hp
  have hfits : p.words + 0 ≤ maxStreamWords := hp.room ▸ s.comp.stream.length_le
  refine ⟨(), p, ?_, rfl, hp, rfl⟩
  unfold room
  rw [if_pos hfits]
  rfl

theorem parseFollows_streamPush (word : Word) :
    ParseFollows symbols fnLength Eq (streamPush word) (room 1) := by
  intro s p hp
  unfold streamPush getStream
  rw [sat_bind, sat_bind, sat_get, sat_pure]
  unfold room
  rw [hp.room]
  by_cases h : s.comp.stream.words.length < maxStreamWords
  · rw [dif_pos h, if_pos (Nat.succ_le_of_lt h)]
    refine ⟨(), _, rfl, rfl, ⟨hp.tokens, ?_, hp.symbols, hp.fns⟩, rfl⟩
    show _ = (s.comp.stream.words ++ [word]).length
    rw [List.length_append]
    rfl
  · rw [dif_neg h, if_neg (by lia)]
    exact ⟨rfl, rfl⟩

/-- Two emissions, one after the other. -/
theorem parseFollows_emit {m n : Nat} {x y : ParseM Unit}
    (hx : ParseFollows symbols fnLength Eq x (room m))
    (hy : ParseFollows symbols fnLength Eq y (room n)) :
    ParseFollows symbols fnLength Eq (do x; y) (room (m + n)) := by
  rw [← room_add]
  exact follows_bind_eq hx fun _ => hy

theorem parseFollows_streamPushLit (value : Word) :
    ParseFollows symbols fnLength Eq (streamPushLit env value) (room 2) :=
  parseFollows_emit symbols fnLength (parseFollows_streamPush symbols fnLength _)
    (parseFollows_streamPush symbols fnLength _)

theorem parseFollows_pushWords (ws : List Word) :
    ParseFollows symbols fnLength Eq (pushWords ws) (room ws.length) := by
  induction ws with
  | nil => exact parseFollows_room_zero symbols fnLength
  | cons w ws ih =>
      rw [List.length_cons, Nat.add_comm]
      exact parseFollows_emit symbols fnLength (parseFollows_streamPush symbols fnLength w) ih

theorem parseFollows_copyRange (n i : Nat) :
    ParseFollows symbols fnLength Eq (copyRange n i) (room n) := by
  induction n generalizing i with
  | zero => exact parseFollows_room_zero symbols fnLength
  | succ n ih =>
      intro s p hp
      show Sat (do streamPush (s.comp.stream.words.getD i 0#32); copyRange n (i + 1)) s _ _
      rw [Nat.add_comm n]
      exact parseFollows_emit symbols fnLength
        (parseFollows_streamPush symbols fnLength (s.comp.stream.words.getD i 0#32))
        (ih (i + 1)) s p hp

/-- The check of the whole body comes first, and says what the copying would. -/
theorem parseFollows_unroll (start len rounds : Nat) :
    ParseFollows symbols fnLength Eq (unroll start len rounds) (room (len * rounds)) := by
  induction rounds with
  | zero => exact parseFollows_room_zero symbols fnLength
  | succ rounds ih =>
      intro s p hp
      show Sat (if maxStreamWords < s.comp.stream.words.length + len then reject .streamFull
        else do copyRange len start; unroll start len rounds) s _ _
      rw [Nat.mul_succ, Nat.add_comm (len * rounds)]
      by_cases hfull : maxStreamWords < s.comp.stream.words.length + len
      · rw [if_pos hfull]
        refine ⟨?_, rfl⟩
        unfold room
        rw [hp.room, if_neg (by lia)]
      · rw [if_neg hfull]
        exact parseFollows_emit symbols fnLength
          (parseFollows_copyRange symbols fnLength len start) ih s p hp

theorem parseFollows_spliceCall (id : List Byte) :
    ParseFollows symbols fnLength Eq (spliceCall id) (walkBody fnLength id) := by
  intro s p hp
  have hlength : fnLength id = (s.comp.findFn id).map fun i => (s.comp.fns i).body.length :=
    congrFun hp.fns.symm id
  unfold spliceCall getFnBody walkBody
  rw [sat_bind, sat_bind, sat_get, hlength]
  cases s.comp.findFn id with
  | some i => exact parseFollows_pushWords symbols fnLength _ s p hp
  | none => exact parseFollows_reject symbols fnLength Eq .unknownSymbol s p hp

/-!
## Accesses, loops and blocks
-/

theorem parseFollows_pokeStmt (fuel : Nat) :
    ParseFollows symbols fnLength Eq (pokeStmt env fuel) (walkPoke env symbols fuel) := by
  have hlit := parseFollows_streamPushLit env symbols fnLength
  refine follows_bind_eq (parseFollows_parseAtomicTerm env symbols fnLength fuel) fun addr => ?_
  refine follows_bind_eq (parseFollows_evalExpr env symbols fnLength fuel none) fun val => ?_
  refine follows_bind_eq (parseFollows_expectSemicolon symbols fnLength) fun _ => ?_
  refine follows_bind_eq (parseFollows_requireAccess env symbols fnLength addr) fun _ => ?_
  refine parseFollows_emit symbols fnLength (m := 2) (n := 3) (hlit addr) ?_
  exact parseFollows_emit symbols fnLength (hlit val) (parseFollows_streamPush symbols fnLength _)

theorem parseFollows_peekStmt (fuel : Nat) :
    ParseFollows symbols fnLength Eq (peekStmt env fuel) (walkPeek env symbols fuel) := by
  refine follows_bind_eq (parseFollows_parseAtomicTerm env symbols fnLength fuel) fun addr => ?_
  refine follows_bind_eq (parseFollows_expectSemicolon symbols fnLength) fun _ => ?_
  refine follows_bind_eq (parseFollows_requireAccess env symbols fnLength addr) fun _ => ?_
  exact parseFollows_emit symbols fnLength (parseFollows_streamPushLit env symbols fnLength addr)
    (parseFollows_streamPush symbols fnLength _)

theorem parseFollows_loopCount (fuel : Nat) :
    ParseFollows symbols fnLength Eq (loopCount env fuel) (walkCount env symbols fuel) :=
  follows_bind_eq (parseFollows_parseAtomicTerm env symbols fnLength fuel) fun count =>
    follows_ite (parseFollows_reject symbols fnLength _ _)
      (parseFollows_pure symbols fnLength count)

theorem parseFollows_callTail : ParseFollows symbols fnLength Eq callTail walkCallTail :=
  follows_bind_eq (parseFollows_next symbols fnLength) fun _ =>
    follows_bind_eq (parseFollows_expectToken symbols fnLength _) fun _ =>
      parseFollows_expectSemicolon symbols fnLength

variable {env symbols fnLength} {fuel : Nat}

theorem parseFollows_parseBodyStmt_succ (hblock : ParseFollows symbols fnLength Eq
      (parseBlock env fuel) (walkBlock env symbols fnLength fuel)) :
    ParseFollows symbols fnLength Eq (parseBodyStmt env (fuel + 1))
      (walkStmt env symbols fnLength (fuel + 1)) := by
  unfold parseBodyStmt walkStmt
  refine follows_bind_eq (parseFollows_next symbols fnLength) fun tok => ?_
  cases tok with
  | identifier id =>
      refine follows_ite (parseFollows_pokeStmt env symbols fnLength fuel) ?_
      refine follows_ite (parseFollows_peekStmt env symbols fnLength fuel) ?_
      refine follows_ite ?_ ?_
      · refine follows_bind_eq (parseFollows_loopCount env symbols fnLength fuel) fun count => ?_
        refine follows_bind (parseFollows_getStream symbols fnLength) fun before pl hbefore => ?_
        refine follows_bind_eq (parseFollows_expectToken symbols fnLength _) fun _ => ?_
        refine follows_bind_eq hblock fun _ => ?_
        refine follows_bind (parseFollows_getStream symbols fnLength) fun after pl' hafter => ?_
        rw [← hbefore, ← hafter]
        exact parseFollows_unroll symbols fnLength _ _ _
      · refine follows_bind_eq (parseFollows_peek symbols fnLength) fun ahead => follows_ite ?_ ?_
        · exact follows_bind_eq (parseFollows_callTail symbols fnLength) fun _ =>
            parseFollows_spliceCall symbols fnLength id
        · exact follows_bind_eq (parseFollows_evalExpr env symbols fnLength fuel _) fun _ =>
            parseFollows_expectSemicolon symbols fnLength
  | _ => exact parseFollows_reject symbols fnLength _ _

theorem parseFollows_parseBlock_succ
    (hstmt : ParseFollows symbols fnLength Eq (parseBodyStmt env fuel)
      (walkStmt env symbols fnLength fuel))
    (hblock : ParseFollows symbols fnLength Eq (parseBlock env fuel)
      (walkBlock env symbols fnLength fuel)) :
    ParseFollows symbols fnLength Eq (parseBlock env (fuel + 1))
      (walkBlock env symbols fnLength (fuel + 1)) := by
  unfold parseBlock walkBlock
  refine follows_bind_eq (parseFollows_peek symbols fnLength) fun tok => follows_ite ?_ ?_
  · exact follows_bind_eq (parseFollows_next symbols fnLength) fun _ =>
      parseFollows_pure symbols fnLength ()
  · exact follows_ite (parseFollows_reject symbols fnLength _ _)
      (follows_bind_eq hstmt fun _ => hblock)

variable (env symbols fnLength)

/-- Statements and blocks are parsed in turn, so the induction is on both. -/
theorem parseFollows_body (fuel : Nat) :
    ParseFollows symbols fnLength Eq (parseBodyStmt env fuel)
        (walkStmt env symbols fnLength fuel) ∧
      ParseFollows symbols fnLength Eq (parseBlock env fuel)
        (walkBlock env symbols fnLength fuel) := by
  induction fuel with
  | zero => exact ⟨follows_throw Eq _, follows_throw Eq _⟩
  | succ fuel ih =>
      exact ⟨parseFollows_parseBodyStmt_succ ih.2, parseFollows_parseBlock_succ ih.1 ih.2⟩

theorem parseFollows_parseTopBlock (fuel : Nat) :
    ParseFollows symbols fnLength Eq (parseTopBlock env fuel)
      (walkTopBlock env symbols fuel) := by
  induction fuel with
  | zero => exact follows_throw Eq _
  | succ fuel ih =>
      unfold parseTopBlock walkTopBlock
      refine follows_bind_eq (parseFollows_peek symbols fnLength) fun tok => follows_ite ?_ ?_
      · exact follows_bind_eq (parseFollows_next symbols fnLength) fun _ =>
          parseFollows_pure symbols fnLength ()
      refine follows_ite (parseFollows_reject symbols fnLength _ _) ?_
      refine follows_bind_eq (parseFollows_next symbols fnLength) fun stmt => ?_
      refine follows_ite ?_ (follows_ite ?_ ?_)
      · exact follows_bind_eq (parseFollows_pokeStmt env symbols fnLength fuel) fun _ => ih
      · exact follows_bind_eq (parseFollows_peekStmt env symbols fnLength fuel) fun _ => ih
      · exact follows_bind_eq (parseFollows_pure symbols fnLength ()) fun _ => ih

end Statements

/-!
## Lines
-/

/-- The parser reads no memory, however it ends. -/
def Unread (x : ParseM α) : Prop :=
  forall s, Sat x s (fun _ s' => s'.reads = s.reads) (fun _ s' => s'.reads = s.reads)

theorem unread_reject (e : ParseError) : Unread (reject e : ParseM α) := fun _ => rfl

theorem unread_bind {x : ParseM α} {f : α -> ParseM β} (hx : Unread x)
    (hf : forall a, Unread (f a)) : Unread (x >>= f) := by
  intro s
  refine sat_seq (hx s) fun a s' hs' => ?_
  rw [← hs']
  exact hf a s'

theorem unread_get : Unread get := fun _ => rfl

theorem composes_unread : Composes (fun {α} (x : ParseM α) _ => Unread x) where
  onPure := fun _ _ => rfl
  onReject := unread_reject
  onBind := unread_bind

theorem onTokens_unread : OnTokens (fun {α} (x : ParseM α) _ => Unread x) where
  toComposes := composes_unread
  onNext := fun _ => rfl
  onPeek := fun _ => rfl

theorem onStream_unread : OnStream (fun {α} (x : ParseM α) _ => Unread x) where
  toComposes := composes_unread
  onGet := fun _ => rfl
  onSet := fun _ _ => rfl

theorem unread_expectSemicolon : Unread expectSemicolon :=
  related_expectSemicolon onTokens_unread

theorem unread_requireAccess (env : Env) (addr : Word) : Unread (requireAccess env addr) := by
  unfold requireAccess
  cases checkAccess env.target env.registry addr with
  | ok _ => exact fun _ => rfl
  | error _ => exact unread_reject _

theorem unread_liftExcept (x : Except ParseError α) : Unread (liftExcept x) :=
  related_liftExcept composes_unread x

theorem unread_setComp (c : Compiler) : Unread (setComp c) := fun _ => rfl

theorem unread_getFnBody (name : List Byte) : Unread (getFnBody name) := by
  refine unread_bind unread_get fun s => ?_
  cases s.comp.findFn name with
  | some i => exact fun _ => rfl
  | none => exact unread_reject _

theorem unread_defineFn (name : NameBuf) : Unread (defineFn name) := by
  refine unread_bind unread_get fun s => ?_
  by_cases h : s.comp.stream.words.length ≤ fnBodyWords
  · rw [dif_pos h]
    exact unread_bind (unread_liftExcept _) fun _ => unread_setComp _
  · rw [dif_neg h]
    exact unread_reject _

theorem sameBuild_refl (env : Env) : SameBuild env env := ⟨rfl, rfl⟩

section Lines

variable (env : Env) (symbols : List Byte -> Option Word)
  (fnLength : List Byte -> Option Nat)

/-- The walk reaches what the parser reads; their results are not compared. -/
def ReadsReached (x : ParseM α) (w : Walk β) : Prop :=
  forall s p, ParseState.At symbols fnLength s p -> Sat x s
    (fun _ s' => s'.reads = (w p).1.reverse ++ s.reads)
    (fun _ s' => s'.reads = (w p).1.reverse ++ s.reads)

variable {symbols fnLength}

theorem readsReached_bind {V : α -> β -> Prop} {x : ParseM α} {w : Walk β}
    {f : α -> ParseM α'} {g : β -> Walk β'} (hx : ParseFollows symbols fnLength V x w)
    (hf : forall a b, V a b -> ReadsReached symbols fnLength (f a) (g b)) :
    ReadsReached symbols fnLength (x >>= f) (w >>= g) := by
  intro s p hp
  rw [sat_bind, Walk.bind_apply]
  refine sat_mono (hx s p hp) ?_ ?_
  · rintro a s' ⟨b, p', hw, hv, hp', hreads⟩
    have happend : ((w p).1 ++ (g b p').1).reverse ++ s.reads =
        (g b p').1.reverse ++ s'.reads := by
      rw [hreads, List.reverse_append, List.append_assoc]
    rw [hw]
    dsimp only
    rw [happend]
    exact hf a b hv s' p' hp'
  · rintro e s' ⟨hw, hreads⟩
    rw [hw]
    exact hreads

theorem readsReached_unread {x : ParseM α} (b : β) (h : Unread x) :
    ReadsReached symbols fnLength x (pure b) :=
  fun s _ _ => h s

theorem readsReached_ite {q : Prop} [Decidable q] {x x' : ParseM α} {w w' : Walk β}
    (hx : ReadsReached symbols fnLength x w) (hx' : ReadsReached symbols fnLength x' w') :
    ReadsReached symbols fnLength (if q then x else x') (if q then w else w') := by
  by_cases hq : q
  · rw [if_pos hq, if_pos hq]
    exact hx
  · rw [if_neg hq, if_neg hq]
    exact hx'

theorem readsReached_bind_eq {x : ParseM α} {w : Walk α} {f : α -> ParseM α'} {g : α -> Walk β}
    (hx : ParseFollows symbols fnLength Eq x w)
    (hf : forall a, ReadsReached symbols fnLength (f a) (g a)) :
    ReadsReached symbols fnLength (x >>= f) (w >>= g) := by
  refine readsReached_bind hx ?_
  rintro a _ rfl
  exact hf a

/-- Nothing more is read, and nothing more is reached. -/
theorem readsReached_then {x : ParseM α} {w : Walk α} {f : α -> ParseM β}
    (hx : ParseFollows symbols fnLength Eq x w) (hf : forall a, Unread (f a)) :
    ReadsReached symbols fnLength (x >>= f) w := by
  intro s p hp
  rw [sat_bind]
  refine sat_mono (hx s p hp) ?_ (fun _ _ h => h.right)
  rintro a s' ⟨_, _, _, _, _, hreads⟩
  rw [← hreads]
  exact hf a s'

/-- Behind its last expression a line reads nothing. -/
theorem readsReached_last {x : ParseM α} {w : Walk α} {f : α -> ParseM β}
    (hx : ParseFollows symbols fnLength Eq x w) (hf : forall a, Unread (f a)) :
    ReadsReached symbols fnLength (x >>= f) (do let _ <- w; pure ()) :=
  readsReached_bind_eq hx fun a => readsReached_unread () (hf a)

variable (symbols fnLength)

theorem parseFollows_restart : ParseFollows symbols fnLength Eq streamReset restart :=
  fun _ _ hp => ⟨(), _, rfl, rfl, ⟨hp.tokens, rfl, hp.symbols, hp.fns⟩, rfl⟩

theorem readsReached_parseLet (fuel : Nat) :
    ReadsReached symbols fnLength (parseLet env fuel) (walkLet env symbols fuel) := by
  refine readsReached_bind (parseFollows_expectName symbols fnLength) fun name _ _ => ?_
  refine readsReached_bind_eq (parseFollows_expectToken symbols fnLength _) fun _ => ?_
  refine readsReached_last (parseFollows_evalExpr env symbols fnLength fuel none) fun value => ?_
  exact unread_bind unread_expectSemicolon fun _ => unread_bind unread_get fun _ =>
    unread_bind (unread_liftExcept _) fun _ => unread_bind (unread_setComp _) fun _ _ => rfl

theorem readsReached_parseFn (fuel : Nat) :
    ReadsReached symbols fnLength (parseFn env fuel) (walkFn env symbols fnLength fuel) := by
  have hexpect := parseFollows_expectToken symbols fnLength
  have hblock := (parseFollows_body env symbols fnLength fuel).2
  refine readsReached_bind (parseFollows_expectName symbols fnLength) fun name _ _ => ?_
  refine readsReached_bind_eq (hexpect _) fun _ => readsReached_bind_eq (hexpect _) fun _ => ?_
  refine readsReached_bind_eq (hexpect _) fun _ => ?_
  refine readsReached_bind_eq (parseFollows_restart symbols fnLength) fun _ => ?_
  have htail : Unread (defineFn name >>= fun _ => pure (Outcome.fnDefined name)) :=
    unread_bind (unread_defineFn name) fun _ _ => rfl
  exact readsReached_then hblock fun _ => htail

theorem readsReached_loopCommand (fuel : Nat) :
    ReadsReached symbols fnLength (loopCommand env fuel) (walkLoop env symbols fuel) := by
  have hblock := parseFollows_parseTopBlock env symbols fnLength fuel
  refine readsReached_bind_eq (parseFollows_loopCount env symbols fnLength fuel) fun count => ?_
  refine readsReached_bind_eq (parseFollows_expectToken symbols fnLength _) fun _ => ?_
  refine readsReached_bind_eq (parseFollows_restart symbols fnLength) fun _ => ?_
  refine readsReached_then hblock fun _ => ?_
  exact unread_bind onStream_unread.onGet fun _ =>
    unread_bind (related_unroll onStream_unread _ _ _) fun _ =>
      unread_bind (related_streamHalt onStream_unread (sameBuild_refl env)) fun _ =>
        unread_bind (related_takeProgram onStream_unread false) fun _ _ => rfl

/-- Two numbers, and what they are for. -/
theorem readsReached_bitCommand (fuel : Nat) {f : Word -> Word -> ParseM Outcome}
    (hf : forall addr bit, Unread (f addr bit)) :
    ReadsReached symbols fnLength
      (do
        let addr <- scanning (parseAtomicTerm env fuel)
        let bit <- scanning (parseAtomicTerm env fuel)
        f addr bit)
      (do
        let _ <- walkAtomic env symbols fuel
        let _ <- walkAtomic env symbols fuel
        pure ()) := by
  have hterm := parseFollows_parseAtomicTerm env symbols fnLength fuel
  exact readsReached_bind_eq hterm fun addr => readsReached_last hterm (hf addr)

theorem readsReached_runCommand (fuel : Nat) (command : Command) :
    ReadsReached symbols fnLength (runCommand env fuel command)
      (walkCommand env symbols fuel command) := by
  have hterm := parseFollows_parseAtomicTerm env symbols fnLength fuel
  have haccess := unread_requireAccess env
  have hname : forall outcome, Unread (nameCommand outcome) :=
    related_nameCommand onTokens_unread
  have hkeyword : forall outcome, Unread (keywordCommand outcome) :=
    related_keywordCommand onTokens_unread
  cases command with
  | peek =>
      exact readsReached_last hterm fun addr => unread_bind unread_expectSemicolon fun _ =>
        unread_bind (haccess addr) fun _ _ => rfl
  | poke =>
      refine readsReached_bind_eq hterm fun addr => ?_
      refine readsReached_last (parseFollows_evalExpr env symbols fnLength fuel none) fun val => ?_
      exact unread_bind unread_expectSemicolon fun _ => unread_bind (haccess addr) fun _ _ => rfl
  | regSetBit | regClrBit =>
      exact readsReached_bitCommand env symbols fnLength fuel fun addr _ =>
        unread_bind unread_expectSemicolon fun _ => unread_bind (haccess addr) fun _ _ => rfl
  | pwm =>
      exact readsReached_bitCommand env symbols fnLength fuel fun _ _ =>
        unread_bind unread_expectSemicolon fun _ => unread_bind (haccess _) fun _ _ => rfl
  | pwmDuty | spiTx =>
      exact readsReached_last hterm fun _ => unread_bind unread_expectSemicolon fun _ =>
        unread_bind (haccess _) fun _ _ => rfl
  | poolAlloc =>
      exact readsReached_last hterm fun _ => unread_bind unread_expectSemicolon fun _ _ => rfl
  | loop => exact readsReached_loopCommand env symbols fnLength fuel
  | poolStats => exact readsReached_unread () fun _ => rfl
  | capClaim | capDrop | store | load | spawn => exact readsReached_unread () (hname _)
  | _ => exact readsReached_unread () (hkeyword _)

theorem readsReached_valueCommand (fuel : Nat) (first : Token) :
    ReadsReached symbols fnLength (valueCommand env fuel first)
      (walkValue env symbols fuel first) := by
  refine readsReached_last (parseFollows_evalExpr env symbols fnLength fuel _) fun value => ?_
  exact unread_bind unread_expectSemicolon fun _ =>
    unread_bind (related_buildValueProgram onStream_unread (sameBuild_refl env) value)
      fun _ _ => rfl

theorem readsReached_callOrValue (fuel : Nat) (id : List Byte) :
    ReadsReached symbols fnLength (callOrValue env fuel id)
      (walkCallOrValue env symbols fuel id) := by
  have hbuild : Unread (buildCallProgram env id) :=
    related_buildCallProgram onStream_unread (sameBuild_refl env) (unread_getFnBody id)
  refine readsReached_bind_eq (parseFollows_peek symbols fnLength) fun ahead => ?_
  refine readsReached_ite ?_ (readsReached_valueCommand env symbols fnLength fuel _)
  exact readsReached_unread () (unread_bind (related_callTail onTokens_unread) fun _ =>
    unread_bind hbuild fun _ _ => rfl)

theorem readsReached_parseLine (fuel : Nat) :
    ReadsReached symbols fnLength (parseLine env fuel) (walkLine env symbols fnLength fuel) := by
  have hvalue := readsReached_valueCommand env symbols fnLength fuel
  have hreject : forall e, ReadsReached symbols fnLength (reject e : ParseM Outcome)
      (stop : Walk Unit) := fun _ _ _ _ => rfl
  refine readsReached_bind_eq (parseFollows_next symbols fnLength) fun first => ?_
  cases first with
  | kwLet => exact readsReached_parseLet env symbols fnLength fuel
  | kwFn => exact readsReached_parseFn env symbols fnLength fuel
  | identifier id =>
      dsimp only
      unfold parseCommand
      cases commandOf id with
      | some command => exact readsReached_runCommand env symbols fnLength fuel command
      | none => exact readsReached_callOrValue env symbols fnLength fuel id
  | literal v => exact hvalue _
  | operator op => exact hvalue _
  | lParen => exact hvalue _
  | _ => exact hreject _

end Lines

/-- The compiler reads what the `peek` terms reached read, in their order. -/
theorem reads_eq_reachedPeeks (env : Env) (c : Compiler) (line : List Byte) :
    (finalState (parse env c line)).scan.reads = (reachedPeeks env c line).reverse := by
  have hstart : ParseState.At c.lookupSymbol c.bodyLength (startState c line)
      ⟨tokensOf line, c.stream.words.length⟩ :=
    ⟨has_startState c line, rfl, rfl, rfl⟩
  have hreads := readsReached_parseLine env c.lookupSymbol c.bodyLength (parseFuel line)
    (startState c line) _ hstart
  unfold parse reachedPeeks
  unfold Sat at hreads
  cases hparse : parseLine env (parseFuel line) (startState c line) with
  | ok outcome s' =>
      rw [hparse] at hreads
      exact hreads.trans (List.append_nil _)
  | error e s' =>
      rw [hparse] at hreads
      exact hreads.trans (List.append_nil _)

/-- Every `peek` term that the line reaches has an address that `check_access` accepts. -/
def PeeksAccessible (env : Env) (c : Compiler) (line : List Byte) : Prop :=
  forall addr, addr ∈ reachedPeeks env c line -> Accessible env.target env.registry addr

theorem readsClaimed_iff_peeksAccessible (env : Env) (c : Compiler) (line : List Byte) :
    ReadsClaimed env (finalState (parse env c line)).scan ↔ PeeksAccessible env c line := by
  unfold ReadsClaimed PeeksAccessible
  simp only [reads_eq_reachedPeeks, List.mem_reverse]

theorem compileReadsChecked_iff (env : Env) (c : Compiler) (line : List Byte) :
    CompileReadsChecked env c line ↔ PeeksAccessible env c line := by
  rw [← readsClaimed_iff_peeksAccessible]
  constructor
  · exact fun h => h.checked
  · intro h
    apply compileReadsChecked_of_compilesFromClaimed
    rcases parse_agree env c line with ⟨heq, _, hrun⟩ | ⟨hbad, _⟩
    · unfold CompilesFromClaimed
      rw [← heq]
      exact hrun
    · exact absurd h hbad

end Compilation
end HolyRust
