import HolyRust.Compilation.Progress
import HolyRust.Compilation.RawRuns

/-!
# Parsing is safe

From every compiler that parsing can reach, the parser on arrays runs in tandem with the
parser of `Compilation.Parser`: it never panics, it comes to an end, and the lexer is
called at most twice more than the line has bytes.
-/

namespace HolyRust
namespace Compilation

open Foundation

/-- The array that `take_program` makes of a stream. -/
def StreamProgram.raw (program : StreamProgram) : Raw.StreamProgram where
  words := program.stream.words ++
    List.replicate (maxStreamWords - program.stream.words.length) 0#32
  len := program.stream.words.length
  yieldsValue := program.yieldsValue

def Outcome.raw : Outcome -> Raw.Outcome
  | .empty => .empty
  | .bound name value => .bound name.raw value
  | .fnDefined name => .fnDefined name.raw
  | .run program => .run program.raw
  | .claim name => .claim name.raw
  | .drop name => .drop name.raw
  | .setBit addr bit => .setBit addr bit
  | .clrBit addr bit => .clrBit addr bit
  | .help => .help
  | .banner => .banner
  | .sysAudit => .sysAudit
  | .enforcedPoke addr val => .enforcedPoke addr val
  | .enforcedPeek addr => .enforcedPeek addr
  | .bench => .bench
  | .pwm period duty => .pwm period duty
  | .pwmDuty duty => .pwmDuty duty
  | .spiTx byte => .spiTx byte
  | .flashTest => .flashTest
  | .store name => .store name.raw
  | .load name => .load name.raw
  | .storeList => .storeList
  | .spawn name => .spawn name.raw
  | .poolAlloc size => .poolAlloc size
  | .poolFree => .poolFree
  | .poolStats => .poolStats

namespace Raw

section Programs

variable {env : Env} {line : List Byte} {p : Cur -> Prop}

/-!
## Programs and calls
-/

theorem slice_stream {c : Compiler} {c' : Compilation.Compiler} (h : c.Shows c') :
    Checked.slice c.stream 0 c.streamLen = .ok c'.stream.words := by
  have hle : c.streamLen ≤ c.stream.length := by
    rw [h.length_stream, h.streamLen]
    exact c'.stream.length_le
  rw [Checked.slice_of_le (Nat.zero_le _) hle, List.drop_zero, h.streamLen, h.stream]

theorem runs_takeProgram (yieldsValue : Bool) :
    Runs env line p (takeProgram yieldsValue) (Compilation.takeProgram yieldsValue)
      (fun a b => a = b.raw) (fun _ => p) := by
  intro r s h hp
  have hcopy : Checked.copy (List.replicate maxStreamWords 0#32) r.comp.streamLen
      s.comp.stream.words = .ok (s.comp.stream.words ++
        List.replicate (maxStreamWords - s.comp.stream.words.length) 0#32) := by
    rw [h.comp.streamLen, Checked.copy_of_le, List.drop_replicate]
    rw [List.length_replicate]
    exact s.comp.stream.length_le
  refine tandem_left (getComp_apply r) ?_
  refine tandem_left (check_ok (slice_stream h.comp) r) ?_
  refine tandem_left (check_ok hcopy r) ?_
  refine tandem_of_ok rfl rfl ⟨?_, h, hp⟩
  rw [h.comp.streamLen]
  rfl

theorem runs_buildValueProgram (value : Word) :
    Runs env line p (buildValueProgram env value) (Compilation.buildValueProgram env value)
      (fun a b => a = b.raw) (fun _ => p) :=
  runs_seq runs_streamReset fun _ => runs_seq (runs_streamPushLit value) fun _ =>
    runs_seq runs_streamHalt fun _ => runs_takeProgram true

theorem tandem_streamPush {r : State} {s : ParseState} (h : Matched line r s) (hp : p r.cur)
    (word : Word) :
    Tandem (streamPush word) r (Compilation.streamPush word) s
      (fun _ _ r' s' => Matched line r' s' ∧ p r'.cur ∧ Extends [word] s s')
      (Failed env line) := by
  refine tandem_mono (tandem_sat (runs_streamPush word r s h hp) (pushes_streamPush word s)) ?_
    (fun _ _ _ _ hfailed => hfailed.left)
  intro _ _ r' s' hend
  exact ⟨hend.left.right.left, hend.left.right.right, hend.right⟩

theorem getElem?_stream {c : Compiler} {c' : Compilation.Compiler} (h : c.Shows c') {i : Nat}
    (hi : i < c'.stream.words.length) : c.stream[i]? = some (c'.stream.words.getD i 0#32) := by
  rw [← List.getElem?_take_of_lt hi, h.stream, List.getD_eq_getElem?_getD,
    List.getElem?_eq_getElem hi]
  rfl

/-- The words that are copied lie in the stream, and stay there while it grows. -/
theorem tandem_copyRange {n i : Nat} {r : State} {s : ParseState} (h : Matched line r s)
    (hp : p r.cur) (hle : i + n ≤ s.comp.stream.words.length) :
    Tandem (copyRange n i) r (Compilation.copyRange n i) s
      (fun _ _ r' s' => Matched line r' s' ∧ p r'.cur ∧
        s.comp.stream.words.length ≤ s'.comp.stream.words.length) (Failed env line) := by
  induction n generalizing i r s with
  | zero => exact ⟨h, hp, Nat.le_refl _⟩
  | succ n ih =>
      have hread : Checked.get r.comp.stream i = .ok (s.comp.stream.words.getD i 0#32) :=
        Checked.get_of_getElem? (getElem?_stream h.comp (by lia))
      have hgetStream : getStream s = .ok s.comp.stream s := rfl
      refine tandem_left (getComp_apply r) ?_
      refine tandem_left (check_ok hread r) ?_
      refine tandem_right hgetStream ?_
      refine tandem_seq (tandem_streamPush h hp _) fun _ _ r1 s1 h1 => ?_
      obtain ⟨hmatched, hp1, hextends⟩ := h1
      have hlength := congrArg List.length hextends.words
      rw [List.length_append, List.length_singleton] at hlength
      refine tandem_imp (ih hmatched hp1 (by lia)) ?_
      intro _ _ r2 s2 h2
      exact ⟨h2.left, h2.right.left, by have := h2.right.right; lia⟩

theorem tandem_unroll {bodyStart bodyEnd : Nat} {r : State} {s : ParseState}
    (h : Matched line r s) (hp : p r.cur) (hstart : bodyStart ≤ bodyEnd)
    (hend : bodyEnd ≤ s.comp.stream.words.length) (rounds : Nat) :
    Tandem (unroll bodyStart bodyEnd (bodyEnd - bodyStart) rounds) r
      (Compilation.unroll bodyStart (bodyEnd - bodyStart) rounds) s
      (fun _ _ r' s' => Matched line r' s' ∧ p r'.cur) (Failed env line) := by
  induction rounds generalizing r s with
  | zero => exact ⟨h, hp⟩
  | succ rounds ih =>
      have hgetStream : getStream s = .ok s.comp.stream s := rfl
      refine tandem_left (getComp_apply r) ?_
      refine tandem_right hgetStream ?_
      rw [h.comp.streamLen]
      by_cases hfull : maxStreamWords < s.comp.stream.words.length + (bodyEnd - bodyStart)
      · rw [if_pos hfull, if_pos hfull]
        exact failed_error env line h _
      · rw [if_neg hfull, if_neg hfull]
        refine tandem_seq (tandem_copyRange h hp (by lia)) fun _ _ r1 s1 h1 => ?_
        exact ih h1.left h1.right.left (Nat.le_trans hend h1.right.right)

/-- A stored body is read word by word; pushing leaves the functions alone. -/
theorem tandem_pushBody {i : Fin maxFns} {n w : Nat} {r : State} {s : ParseState}
    (h : Matched line r s) (hp : p r.cur) (hbody : w + n = (s.comp.fns i).body.length) :
    Tandem (pushBody i.val n w) r (pushWords ((s.comp.fns i).body.drop w)) s
      (fun _ _ r' s' => Matched line r' s' ∧ p r'.cur) (Failed env line) := by
  induction n generalizing w r s with
  | zero =>
      rw [List.drop_eq_nil_of_le (by lia)]
      exact ⟨h, hp⟩
  | succ n ih =>
      obtain ⟨body, hget, _, htake⟩ := h.comp.fnBodies i
      have hlt : w < (s.comp.fns i).body.length := by lia
      have hword : body[w]? = some (s.comp.fns i).body[w] := by
        rw [← List.getElem?_take_of_lt hlt, htake, List.getElem?_eq_getElem hlt]
      rw [List.drop_eq_getElem_cons hlt]
      refine tandem_left (getComp_apply r) ?_
      refine tandem_left (check_ok (Checked.get_of_getElem? hget) r) ?_
      refine tandem_left (check_ok (Checked.get_of_getElem? hword) r) ?_
      refine tandem_seq (tandem_streamPush h hp _) fun _ _ r1 s1 h1 => ?_
      obtain ⟨hmatched, hp1, hextends⟩ := h1
      rw [← hextends.fns]
      exact ih hmatched hp1 (by rw [hextends.fns]; lia)

/-- The loop over a body, as a whole. -/
theorem tandem_pushFn {r : State} {s : ParseState} (h : Matched line r s) (hp : p r.cur)
    (i : Fin maxFns) :
    Tandem (pushBody i.val (s.comp.fns i).body.length 0) r (pushWords (s.comp.fns i).body) s
      (fun _ _ r' s' => Matched line r' s' ∧ p r'.cur) (Failed env line) :=
  tandem_pushBody h hp (Nat.zero_add _)

theorem requireFn_of_shows {r : State} {c : Compilation.Compiler} (h : r.comp.Shows c)
    (name : List Byte) :
    requireFn name r = match c.findFn name with
      | some i => .ok i.val r
      | none => .error (.abort (.error .unknownSymbol)) r := by
  unfold requireFn
  rw [bind_of_ok (getComp_apply r), bind_of_ok (check_ok (Compiler.findFn_shows h name) r)]
  cases c.findFn name with
  | some i => rfl
  | none => rfl

theorem getFnBody_apply (name : List Byte) (s : ParseState) :
    getFnBody name s = match s.comp.findFn name with
      | some i => .ok (s.comp.fns i).body s
      | none => .error (.error .unknownSymbol) s := by
  unfold getFnBody
  rw [bind_of_ok (get_apply s)]
  cases s.comp.findFn name with
  | some i => rfl
  | none => rfl

/-- Both sides find the function, or neither does. -/
theorem tandem_findFn {name : List Byte} {f : Nat -> M α} {g : List Word -> ParseM β} {r : State}
    {s : ParseState} {Q : α -> β -> State -> ParseState -> Prop} (h : Matched line r s)
    (hfound : forall i, Tandem (f i.val) r (g (s.comp.fns i).body) s Q (Failed env line)) :
    Tandem (requireFn name >>= f) r (getFnBody name >>= g) s Q (Failed env line) := by
  have hrequire := requireFn_of_shows h.comp name
  have hbody := getFnBody_apply name s
  cases hfind : s.comp.findFn name with
  | some i =>
      rw [hfind] at hrequire hbody
      exact tandem_left hrequire (tandem_right hbody (hfound i))
  | none =>
      rw [hfind] at hrequire hbody
      unfold Tandem
      rw [bind_apply, bind_apply, hrequire, hbody]
      exact failed_error env line h _

theorem runs_spliceCall (name : List Byte) :
    Runs env line p (spliceCall name) (Compilation.spliceCall name) Eq (fun _ => p) := by
  intro r s h hp
  refine tandem_findFn h fun i => ?_
  refine tandem_left (getComp_apply r) ?_
  refine tandem_left (check_ok (Checked.get_of_getElem? (h.comp.fnBodyLens i)) r) ?_
  refine tandem_imp (tandem_pushFn h hp i) ?_
  exact fun _ _ _ _ hend => ⟨rfl, hend⟩

theorem pushNonempty_eq (index len : Nat) : pushNonempty index len = pushBody index len 0 := by
  unfold pushNonempty
  cases len with
  | zero => rfl
  | succ n => rw [if_pos (Nat.succ_pos n)]

theorem runs_buildCallProgram (name : List Byte) :
    Runs env line p (buildCallProgram env name) (Compilation.buildCallProgram env name)
      (fun a b => a = b.raw) (fun _ => p) := by
  intro r s h hp
  refine tandem_findFn h fun i => ?_
  have hreset : streamReset r = .ok () { r with comp := { r.comp with streamLen := 0 } } := rfl
  have hreset' : Compilation.streamReset s =
      .ok () { s with comp := { s.comp with stream := .empty } } := rfl
  have hmatched := matched_of_shows h (shows_streamReset h.comp)
  refine tandem_left hreset (tandem_right hreset' ?_)
  refine tandem_left (getComp_apply _) ?_
  refine tandem_left (check_ok (Checked.get_of_getElem? (hmatched.comp.fnBodyLens i)) _) ?_
  rw [pushNonempty_eq]
  refine tandem_seq (tandem_pushFn hmatched hp i) fun _ _ r1 s1 h1 => ?_
  have hhalt : Runs env line p (streamHalt env >>= fun _ => takeProgram false)
      (Compilation.streamHalt env >>= fun _ => Compilation.takeProgram false)
      (fun a b => a = b.raw) (fun _ => p) :=
    runs_seq runs_streamHalt fun _ => runs_takeProgram false
  exact hhalt r1 s1 h1.left h1.right

end Programs

/-!
## Statements
-/

section Statements

variable {env : Env} {line : List Byte}

/-- What is known about the parser of `Compilation.Parser` alone. -/
theorem runs_sat {p : Cur -> Prop} {x : M α} {y : ParseM β} {V : α -> β -> Prop}
    {q : α -> Cur -> Prop} {P : β -> ParseState -> Prop} {F : Abort -> ParseState -> Prop}
    (hxy : Runs env line p x y V q) {r : State} {s : ParseState} (h : Matched line r s)
    (hp : p r.cur) (hy : Sat y s P F) :
    Tandem x r y s
      (fun a b r' s' => V a b ∧ Matched line r' s' ∧ q a r'.cur ∧ P b s') (Failed env line) := by
  refine tandem_mono (tandem_sat (hxy r s h hp) hy) ?_ (fun _ _ _ _ hfailed => hfailed.left)
  intro a b r' s' hend
  obtain ⟨⟨hvalue, hmatched, hq⟩, hP⟩ := hend
  exact ⟨hvalue, hmatched, hq, hP⟩

theorem runs_pokeStmt (fuel : Nat) :
    Runs env line Cur.Fresh (pokeStmt env fuel) (Compilation.pokeStmt env fuel) Eq
      (fun _ _ => True) := by
  refine runs_seq (runs_parseAtomicTerm env line fuel) fun addr => ?_
  refine runs_seq ((exprRuns env line fuel).evalExpr none) fun val => ?_
  refine runs_seq runs_expectSemicolon fun _ => runs_seq (runs_requireAccess addr) fun _ => ?_
  refine runs_seq (runs_streamPushLit addr) fun _ => runs_seq (runs_streamPushLit val) fun _ => ?_
  exact runs_streamPush _

theorem runs_peekStmt (fuel : Nat) :
    Runs env line Cur.Fresh (peekStmt env fuel) (Compilation.peekStmt env fuel) Eq
      (fun _ _ => True) := by
  refine runs_seq (runs_parseAtomicTerm env line fuel) fun addr => ?_
  refine runs_seq runs_expectSemicolon fun _ => runs_seq (runs_requireAccess addr) fun _ => ?_
  refine runs_seq (runs_streamPushLit addr) fun _ => ?_
  exact runs_streamPush _

theorem runs_loopCount (fuel : Nat) :
    Runs env line Cur.Fresh (loopCount env fuel) (Compilation.loopCount env fuel) Eq
      (fun _ => Cur.Fresh) := by
  refine runs_seq (runs_parseAtomicTerm env line fuel) fun count => ?_
  exact runs_ite (fun _ => runs_reject _) (fun _ => runs_pure rfl)

theorem runs_callTail :
    Runs env line (fun cur => cur.ahead = some .lParen) callTail Compilation.callTail Eq
      (fun _ _ => True) := by
  refine runs_seq (runs_next_ahead Token.noConfusion) fun _ => ?_
  exact runs_seq (runs_expectToken Token.noConfusion) fun _ => runs_expectSemicolon

/-- A second peek sees the same token. -/
theorem runs_peek_again {tok : Token} {f : Token -> M α} {y : ParseM β} {V : α -> β -> Prop}
    {q : α -> Cur -> Prop} (h : Runs env line (fun cur => cur.ahead = some tok) (f tok) y V q) :
    Runs env line (fun cur => cur.ahead = some tok) (peek >>= f) y V q := by
  intro r s hmatched hahead
  have hpeek : r.cur.peek = .ok (tok, r.cur) := by
    unfold Cur.peek
    rw [hahead]
  exact tandem_left (peek_of_ok hpeek) (h r s hmatched hahead)

/-- All bodies: a block of statements extends the stream, whatever is in it. -/
def anyBody (prims : Prims) : BodyClass prims where
  Holds := fun _ _ => True
  nil := fun _ => trivial
  append := fun _ _ => trivial
  block := fun _ => trivial
  mono := fun _ _ => trivial

theorem parseBlock_grows (env : Env) (fuel : Nat) (s : ParseState) :
    Sat (parseBlock env fuel) s
      (fun _ s' => s.comp.stream.words.length ≤ s'.comp.stream.words.length)
      (fun _ s' => s'.comp.fns = s.comp.fns) := by
  have hemits : Emits (anyBody env.prims) (fun _ => True) (parseBlock env fuel) :=
    (related_body (onStatements_emits (anyBody env.prims) (fun _ => True)) fuel).right
  refine sat_mono (hemits s fun _ => trivial) ?_ (fun _ _ hfns => hfns)
  rintro _ s' ⟨ws, _, hextends⟩
  rw [hextends.words, List.length_append]
  exact Nat.le_add_right _ _

/-- `loop N { .. }` in a body, after its keyword. -/
def loopStmt (env : Env) (fuel : Nat) : M Unit := do
  let count <- loopCount env fuel
  let before <- getComp
  let bodyStart := before.streamLen
  expectToken .lBrace
  loopBlock env fuel
  let after <- getComp
  let bodyEnd := after.streamLen
  let bodyLen <- check (Checked.sub bodyEnd bodyStart)
  unroll bodyStart bodyEnd bodyLen (count.toNat - 1)

/-- The body starts where it ends or before, since its block only extends the stream. -/
theorem runs_loopStmt {fuel : Nat}
    (hblock : Runs env line (fun _ => True) (loopBlock env fuel) (parseBlock env fuel) Eq
      (fun _ _ => True)) :
    Runs env line Cur.Fresh (loopStmt env fuel) (Compilation.loopStmt env fuel) Eq
      (fun _ _ => True) := by
  intro r s h hfresh
  refine tandem_seq (runs_loopCount fuel r s h hfresh) fun count _ r1 s1 h1 => ?_
  obtain ⟨rfl, hmatched1, hfresh1⟩ := h1
  have hbefore : getStream s1 = .ok s1.comp.stream s1 := rfl
  refine tandem_left (getComp_apply r1) (tandem_right hbefore ?_)
  refine tandem_seq (runs_sat (runs_expectToken Token.noConfusion) hmatched1 hfresh1
    (quiet_expectToken .lBrace s1)) fun _ _ r2 s2 h2 => ?_
  obtain ⟨_, hmatched2, _, hcomp⟩ := h2
  refine tandem_seq (runs_sat hblock hmatched2 trivial (parseBlock_grows env fuel s2))
    fun _ _ r3 s3 h3 => ?_
  obtain ⟨_, hmatched3, _, hgrows⟩ := h3
  rw [hcomp] at hgrows
  have hsub : Checked.sub r3.comp.streamLen r1.comp.streamLen =
      .ok (s3.comp.stream.words.length - s1.comp.stream.words.length) := by
    rw [hmatched1.comp.streamLen, hmatched3.comp.streamLen]
    exact Checked.sub_of_le hgrows
  have hafter : getStream s3 = .ok s3.comp.stream s3 := rfl
  refine tandem_left (getComp_apply r3) (tandem_right hafter ?_)
  refine tandem_left (check_ok hsub r3) ?_
  rw [hmatched1.comp.streamLen, hmatched3.comp.streamLen]
  refine tandem_imp (tandem_unroll (p := fun _ => True) hmatched3 trivial hgrows
    (Nat.le_refl _) _) ?_
  exact fun _ _ _ _ hend => ⟨rfl, hend⟩

/-- Statements and blocks run in tandem with this fuel. -/
structure BodyRuns (env : Env) (line : List Byte) (fuel : Nat) : Prop where
  stmt : Runs env line Cur.Spendable (parseBodyStmt env fuel)
    (Compilation.parseBodyStmt env fuel) Eq (fun _ _ => True)
  block : Runs env line (fun _ => True) (loopBlock env fuel) (parseBlock env fuel) Eq
    (fun _ _ => True)

theorem runs_parseBodyStmt_succ {fuel : Nat} (h : BodyRuns env line fuel) :
    Runs env line Cur.Spendable (parseBodyStmt env (fuel + 1))
      (Compilation.parseBodyStmt env (fuel + 1)) Eq (fun _ _ => True) := by
  unfold parseBodyStmt Compilation.parseBodyStmt
  refine runs_seq runs_next fun tok => ?_
  cases tok with
  | identifier id =>
      refine runs_pre ?_ (fun _ hcur => hcur Token.noConfusion)
      refine runs_ite (fun _ => runs_pokeStmt fuel) (fun _ => ?_)
      refine runs_ite (fun _ => runs_peekStmt fuel) (fun _ => ?_)
      refine runs_ite (fun _ => runs_loopStmt h.block) (fun _ => ?_)
      refine runs_seq runs_peek_fresh fun ahead => runs_ite (fun hahead => ?_) (fun _ => ?_)
      · rw [hahead]
        refine runs_pre ?_ (fun _ hcur => hcur.left)
        exact runs_seq runs_callTail fun _ => runs_spliceCall id
      · refine runs_pre ?_ (fun _ hcur => hcur.right)
        exact runs_seq ((exprRuns env line fuel).evalExpr _) fun _ => runs_expectSemicolon
  | _ => exact runs_reject _

/-- The closing brace that was peeked. -/
theorem runs_close :
    Runs env line (fun cur => cur.ahead = some .rBrace)
      (do
        let _ <- next
        pure ())
      (do
        let _ <- nextToken
        pure ()) Eq (fun _ _ => True) := by
  refine runs_seq (runs_next_ahead Token.noConfusion) fun _ => ?_
  exact runs_return rfl fun _ _ => trivial

theorem spendable_of_ahead {tok : Token} (hne : tok ≠ .eof) {cur : Cur}
    (h : cur.ahead = some tok) : cur.Spendable :=
  Or.inr ⟨tok, h, hne⟩

theorem runs_loopBlock_succ {fuel : Nat} (h : BodyRuns env line fuel) :
    Runs env line (fun _ => True) (loopBlock env (fuel + 1)) (parseBlock env (fuel + 1)) Eq
      (fun _ _ => True) := by
  unfold loopBlock parseBlock
  refine runs_seq runs_peek fun tok => runs_ite (fun htok => ?_) (fun _ => ?_)
  · rw [htok]
    exact runs_close
  · refine runs_peek_again (runs_ite (fun _ => runs_reject _) fun hne => ?_)
    refine runs_pre ?_ (fun _ => spendable_of_ahead hne)
    exact runs_seq h.stmt fun _ => h.block

theorem bodyRuns (env : Env) (line : List Byte) (fuel : Nat) : BodyRuns env line fuel := by
  induction fuel with
  | zero =>
      constructor
      · unfold parseBodyStmt Compilation.parseBodyStmt
        exact runs_fuel
      · unfold loopBlock parseBlock
        exact runs_fuel
  | succ fuel ih => exact ⟨runs_parseBodyStmt_succ ih, runs_loopBlock_succ ih⟩

theorem runs_fnBlock (env : Env) (line : List Byte) (fuel : Nat) :
    Runs env line (fun _ => True) (fnBlock env fuel) (parseBlock env fuel) Eq
      (fun _ _ => True) := by
  induction fuel with
  | zero =>
      unfold fnBlock parseBlock
      exact runs_fuel
  | succ fuel ih =>
      unfold fnBlock parseBlock
      refine runs_seq runs_peek fun tok => runs_ite (fun htok => ?_) (fun _ => ?_)
      · rw [htok]
        exact runs_close
      · refine runs_ite (fun _ => runs_reject _) fun hne => ?_
        refine runs_pre ?_ (fun _ => spendable_of_ahead hne)
        exact runs_seq (bodyRuns env line fuel).stmt fun _ => ih

theorem runs_topBlock (env : Env) (line : List Byte) (fuel : Nat) :
    Runs env line (fun _ => True) (topBlock env fuel) (parseTopBlock env fuel) Eq
      (fun _ _ => True) := by
  induction fuel with
  | zero =>
      unfold topBlock parseTopBlock
      exact runs_fuel
  | succ fuel ih =>
      unfold topBlock parseTopBlock
      refine runs_seq runs_peek fun tok => runs_ite (fun htok => ?_) (fun _ => ?_)
      · rw [htok]
        exact runs_close
      · refine runs_peek_again (runs_ite (fun _ => runs_reject _) fun hne => ?_)
        refine runs_seq (runs_next_ahead hne) fun stmt => ?_
        refine runs_ite (fun _ => runs_seq (runs_pokeStmt fuel) fun _ => ih) fun _ => ?_
        refine runs_ite (fun _ => runs_seq (runs_peekStmt fuel) fun _ => ih) fun _ => ?_
        refine runs_pre ?_ (fun _ _ => trivial)
        exact runs_seq (runs_pure (a := ()) rfl) fun _ => ih

end Statements

/-!
## Lines
-/

section Lines

variable {env : Env} {line : List Byte}

theorem shows_insert {r : Compiler} {c c' : Compilation.Compiler} (h : r.Shows c)
    {symbols : List Symbol} {name : Compilation.NameBuf} {value : Word}
    (hinsert : c.insertSymbol name value = .ok c')
    (hsymbols : ({ r with symbols := symbols } : Compiler).ShowsSymbols c') :
    ({ r with symbols := symbols } : Compiler).Shows c' := by
  obtain ⟨k, _, rfl, _⟩ := insertLoop_ok hinsert
  exact ⟨hsymbols, h.fnNames, h.fnBodyLens, h.fnBodies, h.length_stream, h.streamLen, h.stream⟩

/-- The end of a `let` line. -/
theorem tandem_insert {name : Compilation.NameBuf} {value : Word} {r : State} {s : ParseState}
    (h : Matched line r s) :
    Tandem
      (do
        let c <- getComp
        let (result, c) <- check (c.insertSymbol name.raw value)
        setComp c
        liftExcept result
        pure (Outcome.bound name.raw value)) r
      (do
        let s <- get
        let c <- Compilation.liftExcept (s.comp.insertSymbol name value)
        Compilation.setComp c
        pure (Compilation.Outcome.bound name value)) s
      (fun a b r' s' => a = b.raw ∧ Matched line r' s' ∧ True) (Failed env line) := by
  have hshows := Compiler.insertSymbol_shows h.comp.symbols name value
  refine tandem_left (getComp_apply r) (tandem_right (get_apply s) ?_)
  cases hinsert : s.comp.insertSymbol name value with
  | ok c' =>
      rw [hinsert] at hshows
      obtain ⟨symbols, hraw, hsymbols⟩ := hshows
      refine tandem_left (check_ok hraw r) ?_
      exact ⟨rfl, matched_of_shows h (shows_insert h.comp hinsert hsymbols), trivial⟩
  | error e =>
      rw [hinsert] at hshows
      refine tandem_left (check_ok hshows r) ?_
      exact failed_error env line h _

theorem runs_parseLet (fuel : Nat) :
    Runs env line Cur.Fresh (parseLet env fuel) (Compilation.parseLet env fuel)
      (fun a b => a = b.raw) (fun _ _ => True) := by
  refine runs_bind runs_expectName fun _ name hname => ?_
  rw [hname]
  refine runs_seq (runs_expectToken Token.noConfusion) fun _ => ?_
  refine runs_seq ((exprRuns env line fuel).evalExpr none) fun value => ?_
  refine runs_seq runs_expectSemicolon fun _ => ?_
  exact fun r s h _ => tandem_insert h

theorem runs_defineFn {p : Cur -> Prop} (name : Compilation.NameBuf) :
    Runs env line p (defineFn name.raw) (Compilation.defineFn name) Eq (fun _ => p) := by
  intro r s h hp
  refine tandem_left (getComp_apply r) (tandem_right (get_apply s) ?_)
  rw [h.comp.streamLen]
  by_cases hlength : s.comp.stream.words.length ≤ fnBodyWords
  · rw [if_neg (Nat.not_lt.mpr hlength), dif_pos hlength]
    refine tandem_left (check_ok (Compiler.allocFnSlot_shows h.comp name) r) ?_
    have hslice : Checked.slice r.comp.stream 0 s.comp.stream.words.length =
        .ok s.comp.stream.words := by
      rw [← h.comp.streamLen]
      exact slice_stream h.comp
    cases s.comp.allocFnSlot name with
    | ok i =>
        obtain ⟨c, hset, hc⟩ := Compiler.setFn_shows h.comp i name hlength
        have hindex : liftExcept ((Except.ok i).map Fin.val) r = .ok i.val r := rfl
        refine tandem_left hindex ?_
        refine tandem_left (check_ok hslice r) ?_
        refine tandem_left (check_ok hset r) ?_
        exact ⟨rfl, matched_of_shows h hc, hp⟩
    | error e => exact failed_error env line h _
  · rw [if_pos (Nat.lt_of_not_le hlength), dif_neg hlength]
    exact runs_reject _ r s h hp

theorem runs_parseFn (fuel : Nat) :
    Runs env line Cur.Fresh (parseFn env fuel) (Compilation.parseFn env fuel)
      (fun a b => a = b.raw) (fun _ _ => True) := by
  refine runs_bind runs_expectName fun _ name hname => ?_
  rw [hname]
  refine runs_seq (runs_expectToken Token.noConfusion) fun _ => ?_
  refine runs_seq (runs_expectToken Token.noConfusion) fun _ => ?_
  refine runs_seq (runs_expectToken Token.noConfusion) fun _ => ?_
  refine runs_seq runs_streamReset fun _ => ?_
  refine runs_pre ?_ (fun _ _ => trivial)
  refine runs_seq (runs_fnBlock env line fuel) fun _ => runs_seq (runs_defineFn name) fun _ => ?_
  exact runs_pure rfl

theorem runs_keywordCommand {a : Outcome} {b : Compilation.Outcome} (h : a = b.raw) :
    Runs env line Cur.Fresh (keywordCommand a) (Compilation.keywordCommand b)
      (fun a b => a = b.raw) (fun _ _ => True) :=
  runs_seq runs_allowOptionalSemicolon fun _ => runs_pure h

theorem runs_nameCommand {f : NameBuf -> Outcome} {g : Compilation.NameBuf -> Compilation.Outcome}
    (h : forall name, f name.raw = (g name).raw) :
    Runs env line Cur.Fresh (nameCommand f) (Compilation.nameCommand g)
      (fun a b => a = b.raw) (fun _ _ => True) := by
  refine runs_bind runs_expectName fun _ name hname => ?_
  rw [hname]
  exact runs_seq runs_expectSemicolon fun _ => runs_pure (h name)

theorem runs_bitCommand (fuel : Nat) {f : Word -> Word -> Outcome}
    {g : Word -> Word -> Compilation.Outcome} (h : forall addr bit, f addr bit = (g addr bit).raw) :
    Runs env line Cur.Fresh (bitCommand env fuel f) (Compilation.bitCommand env fuel g)
      (fun a b => a = b.raw) (fun _ _ => True) := by
  refine runs_seq (runs_parseAtomicTerm env line fuel) fun addr => ?_
  refine runs_seq (runs_parseAtomicTerm env line fuel) fun bit => ?_
  refine runs_seq runs_expectSemicolon fun _ => runs_seq (runs_requireAccess addr) fun _ => ?_
  exact runs_pure (h addr bit)

/-- A line that ends with a program. -/
theorem runs_program {p q : Cur -> Prop} {x : M StreamProgram}
    {y : ParseM Compilation.StreamProgram}
    (h : Runs env line p x y (fun a b => a = b.raw) (fun _ => q)) :
    Runs env line p (x >>= fun program => pure (Outcome.run program))
      (y >>= fun program => pure (Compilation.Outcome.run program)) (fun a b => a = b.raw)
      (fun _ => q) := by
  refine runs_bind h fun a b hab => runs_pure ?_
  rw [hab]
  rfl

theorem runs_loopCommand (fuel : Nat) :
    Runs env line Cur.Fresh (loopCommand env fuel) (Compilation.loopCommand env fuel)
      (fun a b => a = b.raw) (fun _ _ => True) := by
  refine runs_seq (runs_loopCount fuel) fun count => ?_
  refine runs_seq (runs_expectToken Token.noConfusion) fun _ => ?_
  refine runs_seq runs_streamReset fun _ => ?_
  refine runs_pre ?_ (fun _ _ => trivial)
  refine runs_seq (runs_topBlock env line fuel) fun _ => ?_
  intro r s h hp
  have hbody : getStream s = .ok s.comp.stream s := rfl
  refine tandem_left (getComp_apply r) (tandem_right hbody ?_)
  refine tandem_left (check_ok (Checked.sub_of_le (Nat.zero_le r.comp.streamLen)) r) ?_
  rw [h.comp.streamLen]
  refine tandem_seq (tandem_unroll (p := fun _ => True) h hp (Nat.zero_le _) (Nat.le_refl _) _)
    fun _ _ r1 s1 h1 => ?_
  have hend : Runs env line (fun _ => True)
      (streamHalt env >>= fun _ => takeProgram false >>= fun program =>
        pure (Outcome.run program))
      (Compilation.streamHalt env >>= fun _ => Compilation.takeProgram false >>= fun program =>
        pure (Compilation.Outcome.run program)) (fun a b => a = b.raw) (fun _ _ => True) :=
    runs_seq runs_streamHalt fun _ => runs_program (runs_takeProgram false)
  exact hend r1 s1 h1.left h1.right

theorem runs_valueCommand (fuel : Nat) (first : Token) :
    Runs env line Cur.Fresh (valueCommand env fuel first)
      (Compilation.valueCommand env fuel first) (fun a b => a = b.raw) (fun _ _ => True) := by
  refine runs_seq ((exprRuns env line fuel).evalExpr _) fun value => ?_
  exact runs_seq runs_expectSemicolon fun _ => runs_program (runs_buildValueProgram value)

theorem runs_callOrValue (fuel : Nat) (id : List Byte) :
    Runs env line Cur.Fresh (callOrValue env fuel id) (Compilation.callOrValue env fuel id)
      (fun a b => a = b.raw) (fun _ _ => True) := by
  refine runs_seq runs_peek_fresh fun ahead => runs_ite (fun hahead => ?_) (fun _ => ?_)
  · rw [hahead]
    refine runs_pre ?_ (fun _ hcur => hcur.left)
    exact runs_seq runs_callTail fun _ => runs_program (runs_buildCallProgram id)
  · exact runs_pre (runs_valueCommand fuel _) (fun _ hcur => hcur.right)

theorem runs_runCommand (fuel : Nat) (command : Command) :
    Runs env line Cur.Fresh (runCommand env fuel command)
      (Compilation.runCommand env fuel command) (fun a b => a = b.raw) (fun _ _ => True) := by
  have hterm := runs_parseAtomicTerm env line fuel
  cases command with
  | peek =>
      exact runs_seq hterm fun addr => runs_seq runs_expectSemicolon fun _ =>
        runs_seq (runs_requireAccess addr) fun _ => runs_pure rfl
  | poke =>
      exact runs_seq hterm fun addr => runs_seq ((exprRuns env line fuel).evalExpr none) fun val =>
        runs_seq runs_expectSemicolon fun _ =>
          runs_seq (runs_requireAccess addr) fun _ => runs_pure rfl
  | regSetBit => exact runs_bitCommand fuel fun _ _ => rfl
  | regClrBit => exact runs_bitCommand fuel fun _ _ => rfl
  | pwm =>
      exact runs_seq hterm fun period => runs_seq hterm fun duty =>
        runs_seq runs_expectSemicolon fun _ => runs_seq runs_checkTimerCap fun _ => runs_pure rfl
  | pwmDuty =>
      exact runs_seq hterm fun duty => runs_seq runs_expectSemicolon fun _ =>
        runs_seq runs_checkTimerCap fun _ => runs_pure rfl
  | poolAlloc =>
      exact runs_seq hterm fun size => runs_seq runs_expectSemicolon fun _ => runs_pure rfl
  | spiTx =>
      exact runs_seq hterm fun b => runs_seq runs_expectSemicolon fun _ =>
        runs_seq runs_checkSpiCap fun _ => runs_pure rfl
  | loop => exact runs_loopCommand fuel
  | poolStats => exact runs_return rfl fun _ _ => trivial
  | capClaim | capDrop | store | load | spawn => exact runs_nameCommand fun _ => rfl
  | _ => exact runs_keywordCommand rfl

theorem runs_parseLine (env : Env) (line : List Byte) (fuel : Nat) :
    Runs env line Cur.Fresh (parseLine env fuel) (Compilation.parseLine env fuel)
      (fun a b => a = b.raw) (fun _ _ => True) := by
  refine runs_seq runs_next_fresh fun first => ?_
  have hword : forall {x : M Outcome} {y : ParseM Compilation.Outcome}, first ≠ .eof ->
      Runs env line Cur.Fresh x y (fun a b => a = b.raw) (fun _ _ => True) ->
      Runs env line (fun cur => first ≠ .eof -> cur.Fresh) x y (fun a b => a = b.raw)
        (fun _ _ => True) :=
    fun hne h => runs_pre h (fun _ hcur => hcur hne)
  cases first with
  | kwLet => exact hword Token.noConfusion (runs_parseLet fuel)
  | kwFn => exact hword Token.noConfusion (runs_parseFn fuel)
  | identifier id =>
      refine hword Token.noConfusion ?_
      show Runs env line Cur.Fresh (parseCommand env fuel id)
        (Compilation.parseCommand env fuel id) _ _
      unfold parseCommand Compilation.parseCommand
      cases commandOf id with
      | some command => exact runs_runCommand fuel command
      | none => exact runs_callOrValue fuel id
  | literal v => exact hword Token.noConfusion (runs_valueCommand fuel _)
  | operator op => exact hword Token.noConfusion (runs_valueCommand fuel _)
  | lParen => exact hword Token.noConfusion (runs_valueCommand fuel _)
  | _ => exact runs_reject _

end Lines

/-!
## Whole lines
-/

section Safety

/-- The compilers that lines and imports lead to; each line sees an environment of its own. -/
inductive Reachable : Compiler -> Prop where
  | new : Reachable .new
  | parse {c : Compiler} (h : Reachable c) (env : Env) (line : List Byte) :
      Reachable (finalState (parse env c line)).comp
  | importFn {c c' : Compiler} {name : List Byte} {words : List Word}
      {result : Except ParseError Unit} (h : Reachable c)
      (himport : c.importFn name words = .ok (result, c')) : Reachable c'

theorem shows_new : Compiler.new.Shows .new where
  symbols := Compiler.showsSymbols_new
  fnNames := fun i => List.getElem?_replicate_of_lt i.isLt
  fnBodyLens := fun i => List.getElem?_replicate_of_lt i.isLt
  fnBodies := fun i => ⟨_, List.getElem?_replicate_of_lt i.isLt, List.length_replicate, rfl⟩
  length_stream := List.length_replicate
  streamLen := rfl
  stream := rfl

/-- An import never panics, and stores what it stores in the tables. -/
theorem importFn_shows {r : Compiler} {c : Compilation.Compiler} (h : r.Shows c)
    (name : List Byte) (words : List Word) :
    match c.importFn name words with
    | .ok c' => exists r', r.importFn name words = .ok (.ok (), r') ∧ r'.Shows c'
    | .error e => r.importFn name words = .ok (.error e, r) := by
  unfold Compilation.Compiler.importFn Compiler.importFn
  by_cases hname : nameMax < name.length
  · rw [if_pos hname, if_pos hname]
  · rw [if_neg hname, if_neg hname]
    by_cases hwords : words.length ≤ fnBodyWords
    · rw [dif_pos hwords, if_neg (Nat.not_lt.mpr hwords), fromSlice_raw]
      cases Compilation.NameBuf.fromSlice name with
      | error e => rfl
      | ok nb =>
          dsimp only
          have halloc := Compiler.allocFnSlot_shows h nb
          cases hslot : c.allocFnSlot nb with
          | error e =>
              rw [hslot] at halloc
              show (r.allocFnSlot nb.raw >>= _) = _
              rw [halloc]
              rfl
          | ok i =>
              rw [hslot] at halloc
              obtain ⟨r', hset, hr'⟩ := Compiler.setFn_shows h i nb hwords
              refine ⟨r', ?_, hr'⟩
              show (r.allocFnSlot nb.raw >>= _) = _
              rw [halloc]
              show (r.setFn i.val nb.raw words >>= _) = _
              rw [hset]
              rfl
    · rw [dif_neg hwords, if_pos (Nat.lt_of_not_le hwords)]

theorem matched_start {c : Compiler} {c' : Compilation.Compiler} (h : c.Shows c')
    (line : List Byte) :
    Matched line (startState c line) (Compilation.startState c' line) where
  comp := h
  lexer := rfl
  ahead := rfl
  orderly :=
    { stream := rfl
      inside := Nat.zero_le _
      once := rfl
      words := ⟨[], 0, rfl, List.not_mem_nil, Nat.le_refl 0, fun hk => absurd hk (by decide)⟩
      ends := Nat.zero_le 1 }

/-- The parser on arrays does what the parser on tables does. -/
theorem tandem_parse (env : Env) {c : Compiler} {c' : Compilation.Compiler} (h : c.Shows c')
    (line : List Byte) :
    Tandem (parseLine env (parseFuel line)) (startState c line)
      (Compilation.parseLine env (parseFuel line)) (Compilation.startState c' line)
      (fun a b r s => a = b.raw ∧ Matched line r s ∧ True) (Failed env line) :=
  runs_parseLine env line (parseFuel line) _ _ (matched_start h line) List.not_mem_nil

/-- How a parse may end: with an outcome, with a parser error, or in a `peek` of memory
that faults. -/
inductive Finishes (env : Env) : EStateM.Result Stop State Outcome -> Prop where
  | outcome (outcome : Outcome) (r : State) : Finishes env (.ok outcome r)
  | error (e : ParseError) (r : State) : Finishes env (.error (.abort (.error e)) r)
  | fault (addr : Word) (r : State) (h : env.mem addr = none) :
      Finishes env (.error (.abort (.fault addr)) r)

theorem parse_finishes (env : Env) {c : Compiler} {c' : Compilation.Compiler} (h : c.Shows c')
    (line : List Byte) :
    Finishes env (parse env c line) ∧
      exists s, Matched line (finalState (parse env c line)) s := by
  unfold parse
  rcases tandem_cases (tandem_parse env h line) with
    ⟨outcome, r, _, s, hraw, _, _, hmatched, _⟩ | ⟨e, r, d, s, hraw, hparse, hfailed⟩
  · rw [hraw]
    exact ⟨.outcome outcome r, s, hmatched⟩
  · rw [hraw, hfailed.same]
    refine ⟨?_, s, hfailed.matched⟩
    cases d with
    | error e => exact .error e r
    | fault addr => exact .fault addr r (hfailed.fault addr rfl)
    | fuel => exact absurd hparse (parse_ne_fuel env c' line s)

theorem exists_shows {c : Compiler} (h : Reachable c) : exists c', c.Shows c' := by
  induction h with
  | new => exact ⟨.new, shows_new⟩
  | parse _ env line ih =>
      obtain ⟨c', hc'⟩ := ih
      obtain ⟨_, s, hmatched⟩ := parse_finishes env hc' line
      exact ⟨s.comp, hmatched.comp⟩
  | @importFn c c' name words result _ himport ih =>
      obtain ⟨d, hd⟩ := ih
      have hshows := importFn_shows hd name words
      cases hinto : d.importFn name words with
      | ok d' =>
          rw [hinto] at hshows
          obtain ⟨r', hr', hr'd⟩ := hshows
          rw [hr'] at himport
          cases himport
          exact ⟨d', hr'd⟩
      | error e =>
          rw [hinto] at hshows
          dsimp only at hshows
          rw [hshows] at himport
          cases himport
          exact ⟨d, hd⟩

/-- Two ends of line at most: one consumed and one ahead. -/
theorem length_produced_le {line : List Byte} {cur : Cur} (h : cur.Orderly line) :
    cur.produced.length ≤ line.length + 2 := by
  obtain ⟨ws, k, hproduced, hwords, hlength, _⟩ := h.words
  have hcount : cur.produced.count .eof ≤ 2 := by
    have hahead : cur.ahead.toList.count Token.eof ≤ 1 :=
      Nat.le_trans List.count_le_length (by cases cur.ahead <;> simp)
    have hends := h.ends
    rw [h.once, List.count_append]
    lia
  have hk : cur.produced.count .eof = k := by
    rw [hproduced, List.count_append, List.count_eq_zero_of_not_mem hwords,
      List.count_replicate_self, Nat.zero_add]
  have hinside := h.inside
  rw [hproduced, List.length_append, List.length_replicate]
  lia

/-- From every reachable compiler and for every line: the parse finishes and does not
panic, the consumed tokens are the produced ones in turn with at most one left ahead, and
the lexer was called at most twice more than the line has bytes. -/
theorem parse_safe (env : Env) {c : Compiler} (hc : Reachable c) (line : List Byte) :
    Finishes env (parse env c line) ∧
      (finalState (parse env c line)).cur.produced =
        (finalState (parse env c line)).cur.consumed ++
          (finalState (parse env c line)).cur.ahead.toList ∧
      (finalState (parse env c line)).cur.produced.length ≤ line.length + 2 := by
  obtain ⟨c', hc'⟩ := exists_shows hc
  obtain ⟨hfinishes, s, hmatched⟩ := parse_finishes env hc' line
  exact ⟨hfinishes, hmatched.orderly.once, length_produced_le hmatched.orderly⟩

/-- A loop whose brace is missing. -/
theorem parse_safe_truncated :
    Reachable .new ∧
      Finishes .idle (parse .idle .new (ascii "loop 2 \x7b poke 0x20000000 1")) ∧
      (finalState (parse .idle .new
        (ascii "loop 2 \x7b poke 0x20000000 1"))).cur.produced.length ≤ 26 + 2 := by
  have hsafe := parse_safe .idle Reachable.new (ascii "loop 2 \x7b poke 0x20000000 1")
  exact ⟨Reachable.new, hsafe.left, hsafe.right.right⟩

end Safety

end Raw
end Compilation
end HolyRust
