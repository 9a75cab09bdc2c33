import HolyRust.Compilation.Tables

/-!
# Shape of streams

Every statement appends whole blocks to the stream: `lit a lit v write` for a
poke and `lit a load` for a peek.  Loops and calls replay blocks that are there
already.  The address of a new block was accepted by `check_access` while its
line was compiled.
-/

namespace HolyRust
namespace Compilation

open Foundation
open Capabilities

/-- What one `poke` or `peek` statement compiles to. -/
inductive Block where
  | poke (addr value : Word)
  | peek (addr : Word)
deriving DecidableEq, Repr

namespace Block

def addr : Block -> Word
  | .poke a _ => a
  | .peek a => a

def words (prims : Prims) : Block -> List Word
  | .poke a v =>
      [prims.wordOf .lit, a, prims.wordOf .lit, v, prims.wordOf .writeReg]
  | .peek a => [prims.wordOf .lit, a, prims.wordOf .loadReg]

end Block

def blockWords (prims : Prims) (bs : List Block) : List Word :=
  bs.flatMap (Block.words prims)

section Shape

variable (prims : Prims) (A : Word -> Prop)

/-- A concatenation of blocks with addresses in `A`. -/
def IsBody (ws : List Word) : Prop :=
  exists bs : List Block, (forall b, b ∈ bs -> A b.addr) ∧ ws = blockWords prims bs

/-- A call or loop program: blocks and a final halt. -/
def IsBlockProgram (program : StreamProgram) : Prop :=
  exists bs : List Block, (forall b, b ∈ bs -> A b.addr) ∧
    program.stream.words = blockWords prims bs ++ [prims.wordOf .halt] ∧
    program.yieldsValue = false

/-- A value program: one literal and a final halt. -/
def IsValueProgram (program : StreamProgram) : Prop :=
  exists v : Word,
    program.stream.words = [prims.wordOf .lit, v, prims.wordOf .halt] ∧
    program.yieldsValue = true

def FnsShaped (c : Compiler) : Prop :=
  forall i, IsBody prims A (c.fns i).body

def OutcomeShaped : Outcome -> Prop
  | .run program => IsBlockProgram prims A program ∨ IsValueProgram prims program
  | _ => True

theorem isBody_nil : IsBody prims A [] := by
  refine ⟨[], ?_, rfl⟩
  intro b hb
  cases hb

variable {prims A}

theorem isBody_append {ws vs : List Word} (hws : IsBody prims A ws) (hvs : IsBody prims A vs) :
    IsBody prims A (ws ++ vs) := by
  obtain ⟨bs, hbs, rfl⟩ := hws
  obtain ⟨ds, hds, rfl⟩ := hvs
  refine ⟨bs ++ ds, ?_, ?_⟩
  · intro b hb
    rcases List.mem_append.mp hb with h | h
    · exact hbs b h
    · exact hds b h
  · unfold blockWords
    rw [List.flatMap_append]

theorem isBody_block {b : Block} (hb : A b.addr) : IsBody prims A (b.words prims) := by
  refine ⟨[b], ?_, ?_⟩
  · intro b' hb'
    rw [List.mem_singleton.mp hb']
    exact hb
  · unfold blockWords
    rw [List.flatMap_singleton]

theorem isBody_mono {B : Word -> Prop} (hAB : forall a, A a -> B a) {ws : List Word}
    (hws : IsBody prims A ws) : IsBody prims B ws := by
  obtain ⟨bs, hbs, rfl⟩ := hws
  exact ⟨bs, fun b hb => hAB _ (hbs b hb), rfl⟩

end Shape

/-!
## Classes of bodies

What statements append stays in any class of word lists that is closed under
concatenation and has all blocks.
-/

structure BodyClass (prims : Prims) where
  Holds : (Word -> Prop) -> List Word -> Prop
  nil : forall A, Holds A []
  append : forall {A ws vs}, Holds A ws -> Holds A vs -> Holds A (ws ++ vs)
  block : forall {A b}, A (Block.addr b) -> Holds A (b.words prims)
  mono : forall {A C ws}, (forall a, A a -> C a) -> Holds A ws -> Holds C ws

/-- The least of them. -/
def BodyClass.blocks (prims : Prims) : BodyClass prims where
  Holds := IsBody prims
  nil := isBody_nil prims
  append := isBody_append
  block := isBody_block
  mono := fun hAC hws => isBody_mono hAC hws

section Classes

variable {prims : Prims} (K : BodyClass prims) (A : Word -> Prop)

def FnsIn (c : Compiler) : Prop :=
  forall i, K.Holds A (c.fns i).body

/-- A program is a body of the class with a final halt, or yields a value. -/
def OutcomeIn : Outcome -> Prop
  | .run program =>
      (exists ws, K.Holds A ws ∧ program.stream.words = ws ++ [prims.wordOf .halt] ∧
        program.yieldsValue = false) ∨ IsValueProgram prims program
  | _ => True

variable {K A}

theorem BodyClass.replicate {ws : List Word} (hws : K.Holds A ws) (n : Nat) :
    K.Holds A (List.replicate n ws).flatten := by
  induction n with
  | zero => exact K.nil A
  | succ n ih =>
      rw [List.replicate_succ, List.flatten_cons]
      exact K.append hws ih

theorem fnsIn_of_fns {c c' : Compiler} (h : FnsIn K A c) (hfns : c'.fns = c.fns) :
    FnsIn K A c' := by
  intro i
  rw [hfns]
  exact h i

theorem fnsIn_mono {C : Word -> Prop} (hAC : forall a, A a -> C a) {c : Compiler}
    (h : FnsIn K A c) : FnsIn K C c :=
  fun i => K.mono hAC (h i)

theorem fnsIn_setFn {c : Compiler} (h : FnsIn K A c) (i : Fin maxFns) {slot : FnSlot}
    (hslot : K.Holds A slot.body) : FnsIn K A (c.setFn i slot) := by
  intro j
  show K.Holds A (if j = i then slot else c.fns j).body
  by_cases hj : j = i
  · rw [if_pos hj]
    exact hslot
  · rw [if_neg hj]
    exact h j

theorem outcomeShaped_of_outcomeIn {outcome : Outcome}
    (h : OutcomeIn (.blocks prims) A outcome) : OutcomeShaped prims A outcome := by
  cases outcome with
  | run program =>
      rcases h with ⟨_, ⟨bs, hbs, rfl⟩, hwords, hyields⟩ | hvalue
      · exact Or.inl ⟨bs, hbs, hwords, hyields⟩
      · exact Or.inr hvalue
  | _ => trivial

end Classes

/-!
## What a parser does to the compiler
-/

/-- The functions are untouched and the stream has `ws` more. -/
structure Extends (ws : List Word) (s s' : ParseState) : Prop where
  fns : s'.comp.fns = s.comp.fns
  words : s'.comp.stream.words = s.comp.stream.words ++ ws
  checked : forall a, a ∈ s.checked -> a ∈ s'.checked

theorem extends_refl (s : ParseState) : Extends [] s s :=
  ⟨rfl, (List.append_nil _).symm, fun _ h => h⟩

theorem extends_trans {ws vs : List Word} {s s' s'' : ParseState}
    (h : Extends ws s s') (h' : Extends vs s' s'') : Extends (ws ++ vs) s s'' := by
  refine ⟨h'.fns.trans h.fns, ?_, fun a ha => h'.checked a (h.checked a ha)⟩
  rw [h'.words, h.words, List.append_assoc]

/-- The parser appends exactly `ws`, or fails. -/
def Pushes (ws : List Word) (x : ParseM α) : Prop :=
  forall s, Sat x s (fun _ s' => Extends ws s s') (fun _ s' => s'.comp.fns = s.comp.fns)

theorem pushes_bind {ws vs : List Word} {x : ParseM α} {f : α -> ParseM β}
    (hx : Pushes ws x) (hf : forall a, Pushes vs (f a)) : Pushes (ws ++ vs) (x >>= f) := by
  intro s
  rw [sat_bind]
  refine sat_mono (hx s) ?_ (fun _ _ h => h)
  intro a s1 hs1
  exact sat_mono (hf a s1) (fun _ _ h => extends_trans hs1 h)
    (fun _ _ h => h.trans hs1.fns)

theorem pushes_pure (a : α) : Pushes [] (pure a : ParseM α) := extends_refl

theorem pushes_reject (ws : List Word) (e : ParseError) : Pushes ws (reject e : ParseM α) :=
  fun _ => rfl

theorem pushes_scanning (x : Compiler -> ScanM α) : Pushes [] (scanning x) := by
  intro s
  apply sat_scanning
  unfold Sat
  cases x s.comp s.scan with
  | ok a scan => exact ⟨rfl, (List.append_nil _).symm, fun _ h => h⟩
  | error e scan => rfl

theorem composes_silent : Composes (fun x _ => Pushes [] x) where
  onPure := pushes_pure
  onReject := pushes_reject []
  onBind := pushes_bind

theorem onTokens_silent : OnTokens (fun x _ => Pushes [] x) where
  toComposes := composes_silent
  onNext := pushes_scanning _
  onPeek := pushes_scanning _

theorem pushes_requireAccess (env : Env) (addr : Word) : Pushes [] (requireAccess env addr) := by
  unfold requireAccess
  cases checkAccess env.target env.registry addr with
  | ok _ =>
      intro s
      exact ⟨rfl, (List.append_nil _).symm, fun _ h => List.mem_cons_of_mem _ h⟩
  | error _ => exact pushes_reject _ _

theorem onOperands_silent (env : Env) (fuel : Nat) :
    OnOperands (fun x _ => Pushes [] x) env env fuel fuel where
  toComposes := composes_silent
  target := rfl
  prims := rfl
  onTerm := pushes_scanning _
  onExpr := pushes_scanning _
  onSemicolon := related_expectSemicolon onTokens_silent
  onAccess := pushes_requireAccess env

theorem sat_of_fills {ws : List Word} {x : ParseM Unit} {s : ParseState} (hkeeps : Keeps x)
    (h : Fills ws s s (x s)) :
    Sat x s (fun _ s' => Extends ws s s') (fun _ s' => s'.comp.fns = s.comp.fns) := by
  have htables := hkeeps s
  unfold Sat at *
  cases hx : x s with
  | ok u s' =>
      rw [hx] at h htables
      obtain ⟨⟨stream, hsame⟩, hwords⟩ := h
      have hchecked : s.checked = s'.checked := by rw [hsame]
      exact ⟨htables.fns, hwords, fun a ha => hchecked ▸ ha⟩
  | error e s' =>
      rw [hx] at htables
      exact htables.fns

theorem pushes_streamPush (word : Word) : Pushes [word] (streamPush word) :=
  fun s => sat_of_fills (related_streamPush onStream_keeps word) (emitter_streamPush word s)

theorem pushes_streamPushLit (env : Env) (value : Word) :
    Pushes [env.prims.wordOf .lit, value] (streamPushLit env value) :=
  pushes_bind (pushes_streamPush _) fun _ => pushes_streamPush _

theorem pushes_pushWords (ws : List Word) : Pushes ws (pushWords ws) :=
  fun s => sat_of_fills (related_pushWords onStream_keeps ws) (emitter_pushWords ws s)

theorem sat_unroll (seg pre post : List Word) (rounds : Nat) (s : ParseState)
    (hwords : s.comp.stream.words = pre ++ seg ++ post) :
    Sat (unroll pre.length seg.length rounds) s
      (fun _ s' => Extends (List.replicate rounds seg).flatten s s')
      (fun _ s' => s'.comp.fns = s.comp.fns) :=
  sat_of_fills (related_unroll onStream_keeps _ _ rounds)
    (fills_unroll seg pre post rounds s hwords)

/-!
## Statements append whole blocks
-/

section Statements

variable {env : Env} {K : BodyClass env.prims} {A : Word -> Prop}

/-- In `A`, or accepted by `check_access` while this line was compiled. -/
def Granted (env : Env) (A : Word -> Prop) (s : ParseState) (a : Word) : Prop :=
  A a ∨ (a ∈ s.checked ∧ Accessible env.target env.registry a)

theorem granted_mono {s s' : ParseState} (h : forall a, a ∈ s.checked -> a ∈ s'.checked)
    (a : Word) (ha : Granted env A s a) : Granted env A s' a := by
  rcases ha with ha | ha
  · exact Or.inl ha
  · exact Or.inr ⟨h a ha.left, ha.right⟩

/-- While the stored functions are well formed, the parser appends blocks, or fails. -/
def Emits {env : Env} (K : BodyClass env.prims) (A : Word -> Prop) (x : ParseM α) : Prop :=
  forall s, FnsIn K A s.comp ->
    Sat x s (fun _ s' => exists ws, K.Holds (Granted env A s') ws ∧ Extends ws s s')
      (fun _ s' => s'.comp.fns = s.comp.fns)

theorem emits_of_pushes {ws : List Word} {x : ParseM α}
    (hws : K.Holds A ws) (hx : Pushes ws x) : Emits K A x :=
  fun s _ => sat_mono (hx s) (fun _ _ h => ⟨ws, K.mono (fun _ => Or.inl) hws, h⟩)
    (fun _ _ h => h)

theorem emits_of_silent {x : ParseM α} (hx : Pushes [] x) : Emits K A x :=
  emits_of_pushes (K.nil A) hx

theorem emits_bind {x : ParseM α} {f : α -> ParseM β}
    (hx : Emits K A x) (hf : forall a, Emits K A (f a)) : Emits K A (x >>= f) := by
  intro s hs
  rw [sat_bind]
  refine sat_mono (hx s hs) ?_ (fun _ _ h => h)
  rintro a s1 ⟨ws, hws, hs1⟩
  refine sat_mono (hf a s1 (fnsIn_of_fns hs hs1.fns)) ?_ (fun _ _ h => h.trans hs1.fns)
  rintro b s2 ⟨vs, hvs, hs2⟩
  exact ⟨ws ++ vs, K.append (K.mono (granted_mono hs2.checked) hws) hvs,
    extends_trans hs1 hs2⟩

/-- A check that passes and a block with the address that was checked. -/
theorem emits_checked {b : Block} {x : ParseM α} (hx : Pushes (b.words env.prims) x) :
    Emits K A (requireAccess env b.addr >>= fun _ => x) := by
  intro s hs
  unfold requireAccess
  cases hcheck : checkAccess env.target env.registry b.addr with
  | error _ => rfl
  | ok _ =>
      rw [sat_bind, sat_modify]
      refine sat_mono (hx _) ?_ (fun _ _ h => h)
      intro _ s1 hs1
      have haddr : Granted env A s1 b.addr :=
        Or.inr ⟨hs1.checked _ List.mem_cons_self, hcheck⟩
      exact ⟨b.words env.prims, K.block haddr, hs1.fns, hs1.words,
        fun a ha => hs1.checked a (List.mem_cons_of_mem _ ha)⟩

theorem emits_pokeStmt (fuel : Nat) : Emits K A (pokeStmt env fuel) := by
  unfold pokeStmt
  refine emits_bind (emits_of_silent (pushes_scanning _)) fun addr => ?_
  refine emits_bind (emits_of_silent (pushes_scanning _)) fun val => ?_
  refine emits_bind (emits_of_silent (related_expectSemicolon onTokens_silent)) fun _ => ?_
  exact emits_checked (b := .poke addr val)
    (pushes_bind (pushes_streamPushLit env addr) fun _ =>
      pushes_bind (pushes_streamPushLit env val) fun _ => pushes_streamPush _)

theorem emits_peekStmt (fuel : Nat) : Emits K A (peekStmt env fuel) := by
  unfold peekStmt
  refine emits_bind (emits_of_silent (pushes_scanning _)) fun addr => ?_
  refine emits_bind (emits_of_silent (related_expectSemicolon onTokens_silent)) fun _ => ?_
  exact emits_checked (b := .peek addr)
    (pushes_bind (pushes_streamPushLit env addr) fun _ => pushes_streamPush _)

/-- A body that emits blocks, and its replays. -/
theorem emits_unrolled {x : ParseM Unit} (hx : Emits K A x) (rounds : Nat) :
    Emits K A (do
      let before <- getStream
      expectToken .lBrace
      x
      let after <- getStream
      unroll before.words.length (after.words.length - before.words.length) rounds) := by
  intro s hs
  rw [sat_bind]
  show Sat (do
    expectToken .lBrace
    x
    let after <- getStream
    unroll s.comp.stream.words.length
      (after.words.length - s.comp.stream.words.length) rounds) s _ _
  have hbody : Emits K A (expectToken .lBrace >>= fun _ => x) :=
    emits_bind (emits_of_silent (related_expectToken onTokens_silent _)) fun _ => hx
  rw [← bind_assoc, sat_bind]
  refine sat_mono (hbody s hs) ?_ (fun _ _ h => h)
  rintro _ s1 ⟨ws, hws, hs1⟩
  rw [sat_bind]
  show Sat (unroll s.comp.stream.words.length
    (s1.comp.stream.words.length - s.comp.stream.words.length) rounds) s1 _ _
  have hlen : s1.comp.stream.words.length - s.comp.stream.words.length = ws.length := by
    rw [hs1.words, List.length_append]
    lia
  have hsplit : s1.comp.stream.words = s.comp.stream.words ++ ws ++ [] := by
    rw [hs1.words, List.append_nil]
  rw [hlen]
  refine sat_mono (sat_unroll ws s.comp.stream.words [] rounds s1 hsplit) ?_
    (fun _ _ h => h.trans hs1.fns)
  intro _ s2 hs2
  have hws2 := K.mono (granted_mono hs2.checked) hws
  exact ⟨_, K.append hws2 (K.replicate hws2 rounds), extends_trans hs1 hs2⟩

theorem sat_getFnBody (name : List Byte) (s : ParseState) (hs : FnsIn K A s.comp) :
    Sat (getFnBody name) s (fun body s' => K.Holds A body ∧ s' = s)
      (fun _ s' => s' = s) := by
  unfold getFnBody
  rw [sat_bind, sat_get]
  cases s.comp.findFn name with
  | some i => exact ⟨hs i, rfl⟩
  | none => rfl

theorem emits_spliceCall (name : List Byte) : Emits K A (spliceCall name) := by
  intro s hs
  unfold spliceCall
  rw [sat_bind]
  refine sat_mono (sat_getFnBody name s hs) ?_ (fun _ _ h => by rw [h])
  rintro body s1 ⟨hbody, rfl⟩
  exact emits_of_pushes hbody (pushes_pushWords body) s1 hs

theorem onStatements_emits (K : BodyClass env.prims) (A : Word -> Prop) :
    OnStatements (fun x _ => Emits K A x) env env where
  onPure := fun a => emits_of_silent (pushes_pure a)
  onReject := fun e => emits_of_silent (pushes_reject [] e)
  onBind := emits_bind
  onNext := emits_of_silent (pushes_scanning _)
  onPeek := emits_of_silent (pushes_scanning _)
  onFuel := fun _ _ => rfl
  onPoke := emits_pokeStmt
  onPeekStmt := emits_peekStmt
  onLoop := fun fuel hblock =>
    emits_bind (emits_of_silent (related_loopCount (onOperands_silent env fuel))) fun count =>
      emits_unrolled hblock (count.toNat - 1)
  onCall := emits_spliceCall
  onExpr := fun _ _ => emits_of_silent (pushes_scanning _)

end Statements

/-!
## Lines
-/

section Lines

variable {env : Env} {K : BodyClass env.prims} {A : Word -> Prop}

/-- The line keeps the stored functions well formed and returns a well-formed program. -/
def Shapes {env : Env} (K : BodyClass env.prims) (A : Word -> Prop) (x : ParseM Outcome) : Prop :=
  forall s, FnsIn K A s.comp ->
    Sat x s
      (fun outcome s' => OutcomeIn K (Granted env A s') outcome ∧
        FnsIn K (Granted env A s') s'.comp)
      (fun _ s' => FnsIn K A s'.comp)

theorem shapes_reject (e : ParseError) : Shapes K A (reject e) :=
  fun _ hs => hs

theorem shapes_bind {x : ParseM α} {f : α -> ParseM Outcome}
    (hx : Pushes [] x) (hf : forall a, Shapes K A (f a)) : Shapes K A (x >>= f) := by
  intro s hs
  rw [sat_bind]
  refine sat_mono (hx s) ?_ (fun _ _ h => fnsIn_of_fns hs h)
  intro a s1 hs1
  exact hf a s1 (fnsIn_of_fns hs hs1.fns)

/-- The state after `stream_reset`. -/
def ParseState.fresh (s : ParseState) : ParseState :=
  { s with comp := { s.comp with stream := .empty } }

theorem sat_streamReset {x : ParseM α} {s : ParseState}
    {Q : α -> ParseState -> Prop} {E : Abort -> ParseState -> Prop} (h : Sat x s.fresh Q E) :
    Sat (streamReset >>= fun _ => x) s Q E := by
  rw [sat_bind]
  exact h

theorem words_of_extends_fresh {s s' : ParseState} {ws : List Word}
    (h : Extends ws s.fresh s') : s'.comp.stream.words = ws := by
  have hwords := h.words
  rw [show s.fresh.comp.stream.words = [] from rfl, List.nil_append] at hwords
  exact hwords

/-- The halt and the program that is handed out. -/
theorem sat_haltAndTake (env : Env) (yieldsValue : Bool) (s : ParseState) :
    Sat (do
        streamHalt env
        takeProgram yieldsValue) s
      (fun program s' =>
        program.stream.words = s.comp.stream.words ++ [env.prims.wordOf .halt] ∧
        program.yieldsValue = yieldsValue ∧ s'.comp.fns = s.comp.fns ∧
        forall a, a ∈ s.checked -> a ∈ s'.checked)
      (fun _ s' => s'.comp.fns = s.comp.fns) := by
  rw [sat_bind]
  refine sat_mono (pushes_streamPush _ s) ?_ (fun _ _ h => h)
  intro _ s1 hs1
  exact ⟨hs1.words, rfl, hs1.fns, hs1.checked⟩

theorem shapes_valueCommand (first : Token) (fuel : Nat) :
    Shapes K A (valueCommand env fuel first) := by
  refine shapes_bind (pushes_scanning _) fun value => ?_
  refine shapes_bind (related_expectSemicolon onTokens_silent) fun _ => ?_
  intro s hs
  unfold buildValueProgram
  rw [sat_bind]
  apply sat_streamReset
  rw [sat_bind]
  refine sat_mono (pushes_streamPushLit env value s.fresh) ?_
    (fun _ _ h => fnsIn_of_fns hs h)
  intro _ s1 hs1
  refine sat_mono (sat_haltAndTake env true s1) ?_
    (fun _ _ h => fnsIn_of_fns hs (h.trans hs1.fns))
  rintro program s2 ⟨hwords, hyields, hfns, _⟩
  refine ⟨Or.inr ⟨value, ?_, hyields⟩,
    fnsIn_mono (fun _ => Or.inl) (fnsIn_of_fns hs (hfns.trans hs1.fns))⟩
  rw [hwords, words_of_extends_fresh hs1]
  rfl

theorem shapes_callProgram (name : List Byte) :
    Shapes K A (do
      let program <- buildCallProgram env name
      pure (.run program)) := by
  intro s hs
  unfold buildCallProgram
  rw [sat_bind, sat_bind]
  refine sat_mono (sat_getFnBody name s hs) ?_ (fun _ _ h => by rw [h]; exact hs)
  rintro body s0 ⟨hbody, rfl⟩
  apply sat_streamReset
  rw [sat_bind]
  refine sat_mono (pushes_pushWords _ s0.fresh) ?_ (fun _ _ h => fnsIn_of_fns hs h)
  intro _ s1 hs1
  refine sat_mono (sat_haltAndTake env false s1) ?_
    (fun _ _ h => fnsIn_of_fns hs (h.trans hs1.fns))
  rintro program s2 ⟨hwords, hyields, hfns, _⟩
  refine ⟨Or.inl ⟨body, K.mono (fun _ => Or.inl) hbody, ?_, hyields⟩,
    fnsIn_mono (fun _ => Or.inl) (fnsIn_of_fns hs (hfns.trans hs1.fns))⟩
  rw [hwords, words_of_extends_fresh hs1]

theorem shapes_callOrValue (id : List Byte) (fuel : Nat) :
    Shapes K A (callOrValue env fuel id) := by
  refine shapes_bind onTokens_silent.onPeek fun ahead => ?_
  intro s hs
  refine sat_ite (fun _ => ?_) (fun _ => shapes_valueCommand _ fuel s hs)
  exact shapes_bind (related_callTail onTokens_silent) (fun _ => shapes_callProgram id) s hs

theorem shapes_loopCommand (fuel : Nat) : Shapes K A (loopCommand env fuel) := by
  refine shapes_bind (related_loopCount (onOperands_silent env fuel)) fun count => ?_
  refine shapes_bind (related_expectToken onTokens_silent _) fun _ => ?_
  intro s hs
  apply sat_streamReset
  rw [sat_bind]
  refine sat_mono (related_parseTopBlock (onStatements_emits K A) fuel s.fresh hs) ?_
    (fun _ _ h => fnsIn_of_fns hs h)
  rintro _ s1 ⟨ws, hws, hs1⟩
  have hwords1 := words_of_extends_fresh hs1
  rw [sat_bind]
  show Sat (unroll 0 s1.comp.stream.words.length (count.toNat - 1) >>= _) s1 _ _
  rw [hwords1, sat_bind]
  refine sat_mono (sat_unroll ws [] [] (count.toNat - 1) s1 (by simpa using hwords1)) ?_
    (fun _ _ h => fnsIn_of_fns hs (h.trans hs1.fns))
  intro _ s2 hs2
  rw [← bind_assoc, sat_bind]
  refine sat_mono (sat_haltAndTake env false s2) ?_
    (fun _ _ h => fnsIn_of_fns hs (h.trans (hs2.fns.trans hs1.fns)))
  rintro program s3 ⟨hwords3, hyields, hfns, hchecked⟩
  have hws3 : K.Holds (Granted env A s3) ws :=
    K.mono (granted_mono fun a ha => hchecked a (hs2.checked a ha)) hws
  have hbody := K.append hws3 (K.replicate hws3 (count.toNat - 1))
  refine ⟨Or.inl ⟨_, hbody, ?_, hyields⟩, fnsIn_mono (fun _ => Or.inl)
    (fnsIn_of_fns hs (hfns.trans (hs2.fns.trans hs1.fns)))⟩
  rw [hwords3, hs2.words, hwords1]

theorem shapes_parseLet (fuel : Nat) : Shapes K A (parseLet env fuel) := by
  refine shapes_bind (related_expectName onTokens_silent) fun name => ?_
  refine shapes_bind (related_expectToken onTokens_silent _) fun _ => ?_
  refine shapes_bind (pushes_scanning _) fun value => ?_
  refine shapes_bind (related_expectSemicolon onTokens_silent) fun _ => ?_
  intro s hs
  rw [sat_bind, sat_get]
  cases hinsert : s.comp.insertSymbol name value with
  | ok c =>
      exact ⟨trivial,
        fnsIn_mono (fun _ => Or.inl) (fnsIn_of_fns hs (fns_insert hinsert))⟩
  | error e => exact hs

theorem shapes_parseFn (fuel : Nat) : Shapes K A (parseFn env fuel) := by
  refine shapes_bind (related_expectName onTokens_silent) fun name => ?_
  refine shapes_bind (related_expectToken onTokens_silent _) fun _ => ?_
  refine shapes_bind (related_expectToken onTokens_silent _) fun _ => ?_
  refine shapes_bind (related_expectToken onTokens_silent _) fun _ => ?_
  intro s hs
  apply sat_streamReset
  rw [sat_bind]
  refine sat_mono ((related_body (onStatements_emits K A) fuel).2 s.fresh hs) ?_
    (fun _ _ h => fnsIn_of_fns hs h)
  rintro _ s1 ⟨ws, hws, hs1⟩
  have hfns1 : FnsIn K A s1.comp := fnsIn_of_fns hs hs1.fns
  unfold defineFn
  rw [sat_bind, sat_bind, sat_get]
  by_cases hlen : s1.comp.stream.words.length ≤ fnBodyWords
  · rw [dif_pos hlen]
    cases hslot : s1.comp.allocFnSlot name with
    | ok i =>
        refine ⟨trivial, fnsIn_setFn (fnsIn_mono (fun _ => Or.inl) hfns1) i ?_⟩
        show K.Holds (Granted env A s1) s1.comp.stream.words
        rw [words_of_extends_fresh hs1]
        exact hws
    | error e => exact hfns1
  · rw [dif_neg hlen]
    exact hfns1

theorem outcomeIn_of_answers {command : Command} {outcome : Outcome}
    (h : Answers env command outcome) (hne : command ≠ .loop) (C : Word -> Prop) :
    OutcomeIn K C outcome := by
  cases outcome with
  | run program => exact absurd (loop_of_answers_run h) hne
  | _ => trivial

theorem shapes_runCommand (command : Command) (fuel : Nat) :
    Shapes K A (runCommand env fuel command) := by
  by_cases hloop : command = .loop
  · rw [hloop]
    exact shapes_loopCommand fuel
  · intro s hs
    have hsilent : Pushes [] (runCommand env fuel command) :=
      related_runCommand_of_ne (onOperands_silent env fuel) onTokens_silent hloop
    refine sat_mono (sat_and (hsilent s) (returns_runCommand env fuel command s)) ?_
      (fun _ _ h => fnsIn_of_fns hs h.1)
    rintro outcome s' ⟨hextends, hanswers⟩
    exact ⟨outcomeIn_of_answers hanswers hloop _,
      fnsIn_mono (fun _ => Or.inl) (fnsIn_of_fns hs hextends.fns)⟩

theorem shapes_parseLine (fuel : Nat) : Shapes K A (parseLine env fuel) := by
  refine shapes_bind onTokens_silent.onNext fun first => ?_
  cases first with
  | kwLet => exact shapes_parseLet fuel
  | kwFn => exact shapes_parseFn fuel
  | identifier id =>
      show Shapes K A (parseCommand env fuel id)
      unfold parseCommand
      cases commandOf id with
      | some command => exact shapes_runCommand command fuel
      | none => exact shapes_callOrValue id fuel
  | literal v => exact shapes_valueCommand _ fuel
  | operator op => exact shapes_valueCommand _ fuel
  | lParen => exact shapes_valueCommand _ fuel
  | _ => exact shapes_reject _

/-- What a line does to well-formed functions, whether it is accepted or not. -/
theorem parse_fnsIn {c : Compiler} (hc : FnsIn K A c) (line : List Byte) :
    FnsIn K (Granted env A (finalState (parse env c line)))
      (finalState (parse env c line)).comp := by
  have h := shapes_parseLine (parseFuel line) (startState c line) hc
  unfold Sat at h
  unfold parse
  cases hparse : parseLine env (parseFuel line) (startState c line) with
  | ok outcome s =>
      rw [hparse] at h
      exact h.right
  | error e s =>
      rw [hparse] at h
      exact fnsIn_mono (fun _ => Or.inl) h

theorem parse_outcomeIn {c : Compiler} (hc : FnsIn K A c) {line : List Byte}
    {outcome : Outcome} {s : ParseState} (hparse : parse env c line = .ok outcome s) :
    OutcomeIn K (Granted env A s) outcome :=
  (sat_of_ok (shapes_parseLine (parseFuel line) (startState c line) hc) hparse).left

theorem parse_outcomeShaped {c : Compiler} (hc : FnsShaped env.prims A c) {line : List Byte}
    {outcome : Outcome} {s : ParseState} (hparse : parse env c line = .ok outcome s) :
    OutcomeShaped env.prims (Granted env A s) outcome :=
  outcomeShaped_of_outcomeIn (parse_outcomeIn (K := .blocks env.prims) hc hparse)

theorem outcomeShaped_mono {prims : Prims} {C : Word -> Prop} (hAC : forall a, A a -> C a)
    {outcome : Outcome} (h : OutcomeShaped prims A outcome) : OutcomeShaped prims C outcome := by
  cases outcome with
  | run program =>
      rcases h with ⟨bs, hbs, hwords, hyields⟩ | hvalue
      · exact Or.inl ⟨bs, fun b hb => hAC _ (hbs b hb), hwords, hyields⟩
      · exact Or.inr hvalue
  | _ => trivial

end Lines

/-!
## Whole histories
-/

/-- A compiler and the bodies exported from it so far. -/
structure History where
  comp : Compiler
  exported : List (List Word)

/-- What lines, exports and imports of exported bodies lead to.  A line may come
with any registry and memory. -/
inductive Reach (target : Target) (prims : Prims) : History -> Prop where
  | new : Reach target prims ⟨Compiler.new, []⟩
  | line {h : History} (env : Env) (text : List Byte) :
      Reach target prims h -> env.target = target -> env.prims = prims ->
        Reach target prims { h with comp := (finalState (parse env h.comp text)).comp }
  | exportFn {h : History} {name : List Byte} {capacity : Nat} {ws : List Word} :
      Reach target prims h -> h.comp.exportFn name capacity = some ws ->
        Reach target prims { h with exported := ws :: h.exported }
  | importFn {h : History} {name : List Byte} {ws : List Word} {c : Compiler} :
      Reach target prims h -> ws ∈ h.exported -> name ≠ [] ->
        h.comp.importFn name ws = .ok c -> Reach target prims { h with comp := c }

section Imports

variable {prims : Prims} {K : BodyClass prims} {A : Word -> Prop}

theorem fnsIn_new : FnsIn K A Compiler.new :=
  fun _ => K.nil A

theorem holds_exportFn {c : Compiler} (hc : FnsIn K A c) {name : List Byte} {capacity : Nat}
    {ws : List Word} (h : c.exportFn name capacity = some ws) : K.Holds A ws := by
  unfold Compiler.exportFn at h
  cases hfind : c.findFn name with
  | none =>
      rw [hfind] at h
      cases h
  | some i =>
      rw [hfind] at h
      by_cases hlen : (c.fns i).body.length ≤ capacity
      · simp only [hlen, if_true] at h
        cases h
        exact hc i
      · simp only [hlen, if_false] at h
        cases h

theorem fnsIn_importFn {c c' : Compiler} (hc : FnsIn K A c) {name : List Byte}
    {ws : List Word} (hws : K.Holds A ws) (h : c.importFn name ws = .ok c') : FnsIn K A c' := by
  obtain ⟨_, i, _, _, rfl⟩ := importFn_ok h
  exact fnsIn_setFn hc i hws

end Imports

/-- The invariant of every history. -/
theorem reach_shaped {target : Target} {prims : Prims} {h : History}
    (hreach : Reach target prims h) :
    FnsShaped prims (fun _ => True) h.comp ∧
      forall ws, ws ∈ h.exported -> IsBody prims (fun _ => True) ws := by
  show FnsIn (.blocks prims) (fun _ => True) h.comp ∧ _
  induction hreach with
  | new =>
      refine ⟨fnsIn_new, ?_⟩
      intro ws hws
      cases hws
  | line env text _ _ hprims ih =>
      subst hprims
      exact ⟨fnsIn_mono (fun _ _ => trivial) (parse_fnsIn ih.left text), ih.right⟩
  | exportFn _ hexport ih =>
      refine ⟨ih.left, ?_⟩
      intro ws hws
      rcases List.mem_cons.mp hws with rfl | hold
      · exact holds_exportFn ih.left hexport
      · exact ih.right ws hold
  | importFn _ hmem _ himport ih =>
      exact ⟨fnsIn_importFn ih.left (ih.right _ hmem) himport, ih.right⟩

end Compilation
end HolyRust
