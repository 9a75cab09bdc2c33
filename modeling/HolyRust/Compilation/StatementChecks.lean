import HolyRust.Compilation.Requests

/-!
# Statements and their checks

The `poke` and `peek` statements that stand in a line are found in what the line is read
as.  `check_access` is asked about the address of each of them, and lets it pass, before
the line is accepted.
-/

namespace HolyRust
namespace Compilation

open Foundation
open Capabilities

mutual

/-- The `poke` and `peek` statements in a statement, those of called functions aside. -/
def Stmt.blocks : Stmt -> List Block
  | .block b => [b]
  | .call _ => []
  | .expr => []
  | .loop _ body => blocksOf body

def blocksOf : List Stmt -> List Block
  | [] => []
  | stmt :: body => stmt.blocks ++ blocksOf body

end

def Request.blocks : Request -> List Block
  | .value _ => []
  | .perform body => blocksOf body

theorem blocksOf_append (xs ys : List Stmt) :
    blocksOf (xs ++ ys) = blocksOf xs ++ blocksOf ys := by
  induction xs with
  | nil => rfl
  | cons x xs ih => rw [List.cons_append, blocksOf, blocksOf, ih, List.append_assoc]

theorem blocksOf_singleton (stmt : Stmt) : blocksOf [stmt] = stmt.blocks := by
  rw [blocksOf, blocksOf, List.append_nil]

/-- `check_access` was asked about the address and let it pass. -/
def Vetted (env : Env) (s : ParseState) (b : Block) : Prop :=
  b.addr ∈ s.checked ∧ Accessible env.target env.registry b.addr

/-- What is read comes with its statements vetted. -/
def Vets (env : Env) (blocks : α -> List Block) (x : ParseM α) : Prop :=
  forall s, Sat x s
    (fun a s' => (forall b, b ∈ blocks a -> Vetted env s' b) ∧
      forall addr, addr ∈ s.checked -> addr ∈ s'.checked)
    (fun _ _ => True)

/-!
## Rules
-/

section Rules

variable {env : Env} {blocks : α -> List Block}

theorem vets_pure {a : α} (h : blocks a = []) : Vets env blocks (pure a) := by
  intro s
  refine ⟨?_, fun _ haddr => haddr⟩
  rw [h]
  exact List.forall_mem_nil _

theorem vets_throw (e : Abort) : Vets env blocks (throw e) :=
  fun _ => trivial

theorem vets_ite {p : Prop} [Decidable p] {x y : ParseM α} (hx : Vets env blocks x)
    (hy : Vets env blocks y) : Vets env blocks (if p then x else y) :=
  fun s => sat_ite (fun _ => hx s) (fun _ => hy s)

/-- A part that only moves on. -/
theorem vets_after {p : ParseM β} {f : β -> ParseM α} (hp : Pushes [] p)
    (hf : forall b, Vets env blocks (f b)) : Vets env blocks (p >>= f) := by
  intro s
  refine sat_seq (sat_mono (hp s) (fun _ _ h => h) (fun _ _ _ => trivial)) fun b s1 hs1 => ?_
  refine sat_mono (hf b s1) ?_ (fun _ _ h => h)
  rintro a s2 ⟨hvetted, hkept⟩
  exact ⟨hvetted, fun addr haddr => hkept addr (hs1.checked addr haddr)⟩

/-- Two parts of which each brings its own statements. -/
theorem vets_seq {first : β -> List Block} {second : γ -> List Block} {k : β -> γ -> α}
    {y : ParseM β} {y' : ParseM γ} (hfirst : Vets env first y) (hsecond : Vets env second y')
    (hk : forall b c, blocks (k b c) = first b ++ second c) :
    Vets env blocks (do
      let b <- y
      let c <- y'
      pure (k b c)) := by
  intro s
  refine sat_seq (hfirst s) fun b s1 hs1 => ?_
  refine sat_seq (hsecond s1) fun c s2 hs2 => ?_
  refine ⟨?_, fun addr haddr => hs2.2 addr (hs1.2 addr haddr)⟩
  rw [hk, List.forall_mem_append]
  exact ⟨fun b hb => ⟨hs2.2 _ (hs1.1 b hb).1, (hs1.1 b hb).2⟩, hs2.1⟩

theorem vets_map {other : β -> List Block} {k : β -> α} {y : ParseM β} (hy : Vets env other y)
    (hk : forall b, blocks (k b) = other b) : Vets env blocks (do
      let b <- y
      pure (k b)) := by
  intro s
  refine sat_seq (hy s) fun b s1 hs1 => ?_
  refine ⟨?_, hs1.2⟩
  rw [hk]
  exact hs1.1

end Rules

/-!
## Readers
-/

section Readers

variable (env : Env)

/-- A statement is made only after the check of its address. -/
theorem vets_checked (b : Block) : Vets env Stmt.blocks (do
    requireAccess env b.addr
    pure (.block b)) := by
  intro s
  unfold requireAccess
  cases hcheck : checkAccess env.target env.registry b.addr with
  | error cap => trivial
  | ok u =>
      refine ⟨?_, fun addr haddr => List.mem_cons_of_mem _ haddr⟩
      intro b' hb'
      rw [List.mem_singleton.mp hb']
      exact ⟨List.mem_cons_self, hcheck⟩

theorem vets_readPoke (fuel : Nat) : Vets env Stmt.blocks (readPoke env fuel) :=
  vets_after (pushes_scanning _) fun addr => vets_after (pushes_scanning _) fun val =>
    vets_after (related_expectSemicolon onTokens_silent) fun _ =>
      vets_checked env (.poke addr val)

theorem vets_readPeek (fuel : Nat) : Vets env Stmt.blocks (readPeek env fuel) :=
  vets_after (pushes_scanning _) fun addr =>
    vets_after (related_expectSemicolon onTokens_silent) fun _ => vets_checked env (.peek addr)

theorem pushes_getFnBody (name : List Byte) : Pushes [] (getFnBody name) := by
  intro s
  unfold getFnBody
  rw [sat_bind, sat_get]
  cases s.comp.findFn name with
  | some i => exact extends_refl s
  | none => rfl

theorem vets_readBodyStmt_succ {fuel : Nat} (hblock : Vets env blocksOf (readBlock env fuel)) :
    Vets env Stmt.blocks (readBodyStmt env (fuel + 1)) := by
  have hcount : Pushes [] (loopCount env fuel) := related_loopCount (onOperands_silent env fuel)
  unfold readBodyStmt
  refine vets_after onTokens_silent.onNext fun tok => ?_
  cases tok with
  | identifier id =>
      refine vets_ite (vets_readPoke env fuel) (vets_ite (vets_readPeek env fuel) (vets_ite ?_ ?_))
      · refine vets_after hcount fun count => ?_
        refine vets_after (related_expectToken onTokens_silent _) fun _ => ?_
        exact vets_map hblock fun body => by rw [Stmt.blocks]
      · refine vets_after onTokens_silent.onPeek fun ahead => vets_ite ?_ ?_
        · refine vets_after (related_callTail onTokens_silent) fun _ => ?_
          exact vets_after (pushes_getFnBody id) fun _ => vets_pure (by rw [Stmt.blocks])
        · refine vets_after (pushes_scanning _) fun _ => ?_
          exact vets_after (related_expectSemicolon onTokens_silent) fun _ =>
            vets_pure (by rw [Stmt.blocks])
  | _ => exact vets_throw _

theorem vets_readBlock_succ {fuel : Nat}
    (hstmt : Vets env Stmt.blocks (readBodyStmt env fuel))
    (hblock : Vets env blocksOf (readBlock env fuel)) :
    Vets env blocksOf (readBlock env (fuel + 1)) := by
  unfold readBlock
  refine vets_after onTokens_silent.onPeek fun tok => vets_ite ?_ (vets_ite (vets_throw _) ?_)
  · exact vets_after onTokens_silent.onNext fun _ => vets_pure rfl
  · exact vets_seq hstmt hblock fun stmt body => by rw [blocksOf]

theorem vets_body (fuel : Nat) :
    Vets env Stmt.blocks (readBodyStmt env fuel) ∧ Vets env blocksOf (readBlock env fuel) := by
  induction fuel with
  | zero => exact ⟨vets_throw _, vets_throw _⟩
  | succ fuel ih =>
      exact ⟨vets_readBodyStmt_succ env ih.right, vets_readBlock_succ env ih.left ih.right⟩

theorem vets_readFn (fuel : Nat) :
    Vets env (fun definition => blocksOf definition.2) (readFn env fuel) := by
  have hexpect := fun t => related_expectToken onTokens_silent t
  refine vets_after (hexpect _) fun _ => ?_
  refine vets_after (related_expectName onTokens_silent) fun name => ?_
  refine vets_after (hexpect _) fun _ => vets_after (hexpect _) fun _ => ?_
  refine vets_after (hexpect _) fun _ => ?_
  exact vets_map (vets_body env fuel).2 fun body => rfl

theorem vets_readTopStmt (fuel : Nat) (tok : Token) :
    Vets env blocksOf (readTopStmt env fuel tok) := by
  refine vets_ite ?_ (vets_ite ?_ (vets_pure rfl))
  · exact vets_map (vets_readPoke env fuel) blocksOf_singleton
  · exact vets_map (vets_readPeek env fuel) blocksOf_singleton

theorem vets_readTopBlock (fuel : Nat) : Vets env blocksOf (readTopBlock env fuel) := by
  induction fuel with
  | zero => exact vets_throw _
  | succ fuel ih =>
      unfold readTopBlock
      refine vets_after onTokens_silent.onPeek fun tok => vets_ite ?_ (vets_ite (vets_throw _) ?_)
      · exact vets_after onTokens_silent.onNext fun _ => vets_pure rfl
      · refine vets_after onTokens_silent.onNext fun tok => ?_
        exact vets_seq (vets_readTopStmt env fuel tok) ih blocksOf_append

theorem vets_readValue (fuel : Nat) (first : Token) :
    Vets env Request.blocks (readValue env fuel first) :=
  vets_after (pushes_scanning _) fun _ =>
    vets_after (related_expectSemicolon onTokens_silent) fun _ => vets_pure rfl

theorem vets_readLoop (fuel : Nat) : Vets env Request.blocks (readLoop env fuel) := by
  have hcount : Pushes [] (loopCount env fuel) := related_loopCount (onOperands_silent env fuel)
  refine vets_after hcount fun count => ?_
  refine vets_after (related_expectToken onTokens_silent _) fun _ => ?_
  refine vets_map (vets_readTopBlock env fuel) fun body => ?_
  rw [Request.blocks, blocksOf_singleton, Stmt.blocks]

theorem vets_readCallOrValue (fuel : Nat) (id : List Byte) :
    Vets env Request.blocks (readCallOrValue env fuel id) := by
  refine vets_after onTokens_silent.onPeek fun ahead => vets_ite ?_ (vets_readValue env fuel _)
  refine vets_after (related_callTail onTokens_silent) fun _ => ?_
  exact vets_after (pushes_getFnBody id) fun _ => vets_pure rfl

theorem vets_readRequest (fuel : Nat) : Vets env Request.blocks (readRequest env fuel) := by
  refine vets_after onTokens_silent.onNext fun first => ?_
  cases first with
  | identifier id =>
      show Vets env Request.blocks (readCommand env fuel id)
      unfold readCommand
      cases commandOf id with
      | none => exact vets_readCallOrValue env fuel id
      | some command =>
          cases command with
          | loop => exact vets_readLoop env fuel
          | _ => exact vets_throw _
  | literal v => exact vets_readValue env fuel _
  | operator op => exact vets_readValue env fuel _
  | lParen => exact vets_readValue env fuel _
  | _ => exact vets_throw _

end Readers

/-!
## Lines
-/

section Lines

variable {env : Env} {c : Compiler} {line : List Byte} {s' : ParseState}

/-- The statements of an accepted definition are vetted in the end. -/
theorem vetted_of_readsFn {name name' : NameBuf} {body : List Stmt}
    (h : parse env c line = .ok (.fnDefined name) s') (hreads : ReadsFn env c line name' body) :
    forall b, b ∈ blocksOf body -> Vetted env s' b := by
  obtain ⟨t, hread⟩ := hreads
  have hvetted := (sat_of_ok (vets_readFn env (parseFuel line) (startState c line)) hread).1
  have hstores := stores_of_readFn hread
  rw [h] at hstores
  intro b hb
  unfold Vetted
  rw [hstores.2.2.2]
  exact hvetted b hb

/-- ... and those of a line that runs. -/
theorem vetted_of_readsRequest {program : StreamProgram} {request : Request}
    (h : parse env c line = .ok (.run program) s') (hreads : ReadsRequest env c line request) :
    forall b, b ∈ request.blocks -> Vetted env s' b := by
  obtain ⟨t, hread⟩ := hreads
  have hvetted := (sat_of_ok (vets_readRequest env (parseFuel line) (startState c line)) hread).1
  have hbuilt := built_of_readRequest hread
  rw [h] at hbuilt
  intro b hb
  unfold Vetted
  rw [hbuilt.2]
  exact hvetted b hb

end Lines

end Compilation
end HolyRust
