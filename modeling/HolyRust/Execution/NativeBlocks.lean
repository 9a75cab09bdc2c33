import HolyRust.Compilation.Native
import HolyRust.Execution.StreamRuns

/-!
# Native code of blocks

What a backend has to get right, and what the code of a whole stream then does.
`loaded v` is the word that the code for the literal `v` leaves in a register;
it is `v` on one target only.
-/

namespace HolyRust
namespace Execution

open Foundation
open Compilation
open Isa

/-- From `c`, the units end in `c'` and control goes on behind them. -/
def Executes (isa : Leaf unit instr) (bus : Bus Word Word σ) (units : List unit)
    (c c' : Core σ) : Prop :=
  exists n, n ≤ units.length ∧ forall fuel rest,
    isa.run bus (fuel + n) (units ++ rest) c = isa.run bus fuel rest c'

theorem executes_nil (isa : Leaf unit instr) (bus : Bus Word Word σ) (c : Core σ) :
    Executes isa bus [] c c :=
  ⟨0, Nat.le_refl _, fun _ _ => rfl⟩

theorem executes_append {isa : Leaf unit instr} {bus : Bus Word Word σ} {us vs : List unit}
    {c c' c'' : Core σ} (h : Executes isa bus us c c') (h' : Executes isa bus vs c' c'') :
    Executes isa bus (us ++ vs) c c'' := by
  obtain ⟨n, hn, hrun⟩ := h
  obtain ⟨m, hm, hrun'⟩ := h'
  refine ⟨m + n, ?_, ?_⟩
  · rw [List.length_append]
    lia
  · intro fuel rest
    rw [List.append_assoc, ← Nat.add_assoc, hrun, hrun']

/-- One instruction that takes up all of `units`. -/
theorem executes_instr {isa : Leaf unit instr} {bus : Bus Word Word σ} {units : List unit}
    {c c' : Core σ} {i : instr} (hlen : 1 ≤ units.length)
    (hdecode : forall rest, isa.decode (units ++ rest) = some (i, rest))
    (hexec : isa.exec bus i c = .next c') : Executes isa bus units c c' :=
  ⟨1, hlen, fun _ rest => Leaf.run_next (hdecode rest) hexec⟩

/-- The emitted code of each kind, its size and its effect. -/
structure BackendLaws (B : Backend unit instr) (loaded : Word -> Word) (movUnits : Nat) :
    Prop where
  mov : forall r, r = B.acc ∨ r = B.scratch -> forall v, exists units,
    units.length ≤ movUnits ∧ Appends units (B.emitter.movImm r v) ∧
      forall {σ : Type} (bus : Bus Word Word σ) (c : Core σ),
        Executes B.isa bus units c (c.set r.toNat (loaded v))
  store : exists u, Appends [u] (B.emitter.storeU32 B.scratch B.acc) ∧
    forall {σ : Type} (bus : Bus Word Word σ) (c : Core σ),
      Executes B.isa bus [u] c (c.store bus (c.regs B.acc.toNat) (c.regs B.scratch.toNat))
  load : exists u, Appends [u] (B.emitter.loadU32 B.acc B.scratch) ∧
    forall {σ : Type} (bus : Bus Word Word σ) (c : Core σ),
      Executes B.isa bus [u] c (c.load bus B.acc.toNat (c.regs B.scratch.toNat))
  ret : exists u, Appends [u] B.emitter.ret ∧
    forall {σ : Type} (bus : Bus Word Word σ) (c : Core σ) (fuel : Nat) (rest : List unit),
      B.isa.run bus (fuel + 1) (u :: rest) c = some c
  distinct : B.acc.toNat ≠ B.scratch.toNat

/-!
## Effect of a block
-/

/-- The accumulator takes an address only if nothing was loaded before. -/
def nativeBlock (B : Backend unit instr) (loaded : Word -> Word) (bus : Bus Word Word σ)
    (accLoaded : Bool) (b : Block) (c : Core σ) : Core σ :=
  match b with
  | .poke a v =>
      let c1 := c.set (if accLoaded then B.scratch else B.acc).toNat (loaded a)
      let c2 := c1.set B.scratch.toNat (loaded v)
      c2.store bus (c2.regs B.acc.toNat) (c2.regs B.scratch.toNat)
  | .peek a =>
      let c1 := c.set B.scratch.toNat (loaded a)
      c1.load bus B.acc.toNat (c1.regs B.scratch.toNat)

def nativeBlocks (B : Backend unit instr) (loaded : Word -> Word) (bus : Bus Word Word σ) :
    Bool -> List Block -> Core σ -> Core σ
  | _, [], c => c
  | accLoaded, b :: bs, c =>
      nativeBlocks B loaded bus true bs (nativeBlock B loaded bus accLoaded b c)

theorem appends_orFail {units : List unit} {x : EmitM unit Unit} (h : Appends units x) :
    Appends units (orFail x) := by
  intro b hroom
  unfold orFail
  rw [h b hroom]

section Compile

variable {B : Backend unit instr} {loaded : Word -> Word} {movUnits : Nat} (prims : Prims)

/-- Words of two primitives differ. -/
theorem wordOf_ne {p q : Prim} (h : p ≠ q) : prims.wordOf p ≠ prims.wordOf q :=
  fun heq => h (prims.wordOf_injective p q heq)

theorem compileLoop_lit (val : Word) (rest : List Word) (accLoaded : Bool) :
    compileLoop B prims (prims.wordOf .lit :: val :: rest) accLoaded = (do
      orFail (literal B prims val (rest.headD 0#32) accLoaded).1
      compileLoop B prims rest (literal B prims val (rest.headD 0#32) accLoaded).2) := by
  rw [compileLoop, if_neg (prims.wordOf_ne_zero _), if_neg (wordOf_ne prims (by decide)),
    if_pos rfl]

theorem compileLoop_loadReg (rest : List Word) (accLoaded : Bool) :
    compileLoop B prims (prims.wordOf .loadReg :: rest) accLoaded = (do
      orFail (B.emitter.loadU32 B.acc B.scratch)
      compileLoop B prims rest true) := by
  rw [compileLoop.eq_def]
  simp only [if_neg (prims.wordOf_ne_zero _), if_neg (wordOf_ne prims (p := .loadReg) (q := .halt)
    (by decide)), if_neg (wordOf_ne prims (p := .loadReg) (q := .lit) (by decide))]
  unfold operation
  simp only [if_neg (wordOf_ne prims (p := .loadReg) (q := .add) (by decide)),
    if_neg (wordOf_ne prims (p := .loadReg) (q := .sub) (by decide)),
    if_neg (wordOf_ne prims (p := .loadReg) (q := .mul) (by decide)),
    if_neg (wordOf_ne prims (p := .loadReg) (q := .div) (by decide)), if_true]

theorem compileLoop_writeReg (rest : List Word) (accLoaded : Bool) :
    compileLoop B prims (prims.wordOf .writeReg :: rest) accLoaded = (do
      orFail (B.emitter.storeU32 B.scratch B.acc)
      compileLoop B prims rest accLoaded) := by
  rw [compileLoop.eq_def]
  simp only [if_neg (prims.wordOf_ne_zero _), if_neg (wordOf_ne prims (p := .writeReg) (q := .halt)
    (by decide)), if_neg (wordOf_ne prims (p := .writeReg) (q := .lit) (by decide))]
  unfold operation
  simp only [if_neg (wordOf_ne prims (p := .writeReg) (q := .add) (by decide)),
    if_neg (wordOf_ne prims (p := .writeReg) (q := .sub) (by decide)),
    if_neg (wordOf_ne prims (p := .writeReg) (q := .mul) (by decide)),
    if_neg (wordOf_ne prims (p := .writeReg) (q := .div) (by decide)),
    if_neg (wordOf_ne prims (p := .writeReg) (q := .loadReg) (by decide)), if_true]

theorem compileLoop_halt (rest : List Word) (accLoaded : Bool) :
    compileLoop B prims (prims.wordOf .halt :: rest) accLoaded = pure () := by
  rw [compileLoop.eq_def]
  simp only [if_neg (prims.wordOf_ne_zero _), if_true]

theorem literal_before_lit (val : Word) (accLoaded : Bool) :
    literal B prims val (prims.wordOf .lit) accLoaded =
      (B.emitter.movImm (if accLoaded then B.scratch else B.acc) val, true) := by
  unfold literal
  rw [if_neg (not_or.mpr ⟨wordOf_ne prims (by decide), wordOf_ne prims (by decide)⟩)]
  cases accLoaded <;> rfl

theorem literal_before_halt (val : Word) :
    literal B prims val (prims.wordOf .halt) false = (B.emitter.movImm B.acc val, true) := by
  unfold literal
  rw [if_neg (not_or.mpr ⟨wordOf_ne prims (by decide), wordOf_ne prims (by decide)⟩)]
  rfl

theorem literal_before_loadReg (val : Word) (accLoaded : Bool) :
    literal B prims val (prims.wordOf .loadReg) accLoaded =
      (B.emitter.movImm B.scratch val, accLoaded) := by
  unfold literal
  rw [if_pos (Or.inl rfl)]

theorem literal_before_writeReg (val : Word) (accLoaded : Bool) :
    literal B prims val (prims.wordOf .writeReg) accLoaded =
      (B.emitter.movImm B.scratch val, accLoaded) := by
  unfold literal
  rw [if_pos (Or.inr rfl)]

/-- The code of one block: its size, where it goes, and its effect. -/
theorem compile_block (hB : BackendLaws B loaded movUnits) (accLoaded : Bool) (b : Block) :
    exists units,
      units.length ≤ (match b with | .poke _ _ => 2 * movUnits + 1 | .peek _ => movUnits + 1) ∧
      (forall rest us, Appends us (compileLoop B prims rest true) ->
        Appends (units ++ us) (compileLoop B prims (b.words prims ++ rest) accLoaded)) ∧
      forall {σ : Type} (bus : Bus Word Word σ) (c : Core σ),
        Executes B.isa bus units c (nativeBlock B loaded bus accLoaded b c) := by
  cases b with
  | poke a v =>
      obtain ⟨us1, hlen1, happ1, hrun1⟩ :=
        hB.mov (if accLoaded then B.scratch else B.acc) (by cases accLoaded <;> simp) a
      obtain ⟨us2, hlen2, happ2, hrun2⟩ := hB.mov B.scratch (Or.inr rfl) v
      obtain ⟨u3, happ3, hrun3⟩ := hB.store
      refine ⟨us1 ++ (us2 ++ [u3]), ?_, ?_, ?_⟩
      · rw [List.length_append, List.length_append, List.length_singleton]
        show _ ≤ 2 * movUnits + 1
        lia
      · intro rest us hus
        show Appends _ (compileLoop B prims (prims.wordOf .lit :: a :: prims.wordOf .lit :: v ::
          prims.wordOf .writeReg :: rest) accLoaded)
        rw [compileLoop_lit, List.headD_cons, literal_before_lit, compileLoop_lit,
          List.headD_cons, literal_before_writeReg, compileLoop_writeReg, List.append_assoc,
          List.append_assoc]
        exact appends_bind (appends_orFail happ1)
          (appends_bind (appends_orFail happ2) (appends_bind (appends_orFail happ3) hus))
      · intro σ bus c
        exact executes_append (hrun1 bus c)
          (executes_append (hrun2 bus _) (hrun3 bus _))
  | peek a =>
      obtain ⟨us1, hlen1, happ1, hrun1⟩ := hB.mov B.scratch (Or.inr rfl) a
      obtain ⟨u2, happ2, hrun2⟩ := hB.load
      refine ⟨us1 ++ [u2], ?_, ?_, ?_⟩
      · rw [List.length_append, List.length_singleton]
        show _ ≤ movUnits + 1
        lia
      · intro rest us hus
        show Appends _ (compileLoop B prims (prims.wordOf .lit :: a ::
          prims.wordOf .loadReg :: rest) accLoaded)
        rw [compileLoop_lit, List.headD_cons, literal_before_loadReg, compileLoop_loadReg,
          List.append_assoc]
        exact appends_bind (appends_orFail happ1) (appends_bind (appends_orFail happ2) hus)
      · intro σ bus c
        exact executes_append (hrun1 bus c) (hrun2 bus _)

/-- Units that a stream word can cost. -/
structure UnitsPerWord (movUnits k : Nat) : Prop where
  poke : 2 * movUnits + 1 ≤ 5 * k
  peek : movUnits + 1 ≤ 3 * k

/-- The code of a stream of blocks, by induction on the blocks. -/
theorem compile_blocks (hB : BackendLaws B loaded movUnits) {k : Nat} (hk : UnitsPerWord movUnits k)
    (accLoaded : Bool) (bs : List Block) :
    exists units,
      units.length ≤ k * (blockWords prims bs).length ∧
      Appends units
        (compileLoop B prims (blockWords prims bs ++ [prims.wordOf .halt]) accLoaded) ∧
      forall {σ : Type} (bus : Bus Word Word σ) (c : Core σ),
        Executes B.isa bus units c (nativeBlocks B loaded bus accLoaded bs c) := by
  induction bs generalizing accLoaded with
  | nil =>
      refine ⟨[], Nat.zero_le _, ?_, fun bus c => executes_nil _ bus c⟩
      show Appends [] (compileLoop B prims [prims.wordOf .halt] accLoaded)
      rw [compileLoop_halt]
      exact appends_pure
  | cons b bs ih =>
      obtain ⟨us, hlen, happ, hrun⟩ := compile_block prims hB accLoaded b
      obtain ⟨vs, hlen', happ', hrun'⟩ := ih true
      refine ⟨us ++ vs, ?_, ?_, ?_⟩
      · rw [blockWords_cons, List.length_append, List.length_append, length_blockWords,
          Nat.mul_add]
        have hblock : us.length ≤ k * blockSize b := by
          cases b with
          | poke a v => exact Nat.le_trans hlen (Nat.le_trans hk.poke (by rw [Nat.mul_comm]; rfl))
          | peek a => exact Nat.le_trans hlen (Nat.le_trans hk.peek (by rw [Nat.mul_comm]; rfl))
        lia
      · rw [blockWords_cons, List.append_assoc]
        exact happ _ _ happ'
      · intro σ bus c
        exact executes_append (hrun bus c) (hrun' bus _)

end Compile

/-!
## Whole programs
-/

section Programs

variable {B : Backend unit instr} {loaded : Word -> Word} {movUnits k : Nat} (prims : Prims)

theorem isCompilableLoop_lit (v : Word) (rest : List Word) (litSeen : Bool) :
    isCompilableLoop prims (prims.wordOf .lit :: v :: rest) litSeen =
      isCompilableLoop prims rest true := by
  rw [isCompilableLoop,
    if_neg (not_or.mpr ⟨prims.wordOf_ne_zero _, wordOf_ne prims (by decide)⟩), if_pos rfl]

theorem isCompilableLoop_halt (rest : List Word) (litSeen : Bool) :
    isCompilableLoop prims (prims.wordOf .halt :: rest) litSeen = true := by
  rw [isCompilableLoop.eq_def]
  simp only [or_true, if_true]

theorem isCompilableLoop_operation {p : Prim} (hlit : p ≠ .lit) (hhalt : p ≠ .halt)
    (rest : List Word) (litSeen : Bool) :
    isCompilableLoop prims (prims.wordOf p :: rest) litSeen =
      isCompilableLoop prims rest true := by
  rw [isCompilableLoop.eq_def]
  simp only [if_neg (not_or.mpr ⟨prims.wordOf_ne_zero p, wordOf_ne prims hhalt⟩),
    if_neg (wordOf_ne prims hlit)]
  rw [if_pos]
  cases p with
  | lit => exact absurd rfl hlit
  | halt => exact absurd rfl hhalt
  | _ => simp

theorem isCompilable_blocks (bs : List Block) (litSeen : Bool) :
    isCompilableLoop prims (blockWords prims bs ++ [prims.wordOf .halt]) litSeen = true := by
  induction bs generalizing litSeen with
  | nil => exact isCompilableLoop_halt prims [] litSeen
  | cons b bs ih =>
      rw [blockWords_cons, List.append_assoc]
      cases b with
      | poke a v =>
          show isCompilableLoop prims (prims.wordOf .lit :: a :: prims.wordOf .lit :: v ::
            prims.wordOf .writeReg :: _) litSeen = true
          rw [isCompilableLoop_lit, isCompilableLoop_lit,
            isCompilableLoop_operation prims (by decide) (by decide)]
          exact ih true
      | peek a =>
          show isCompilableLoop prims (prims.wordOf .lit :: a ::
            prims.wordOf .loadReg :: _) litSeen = true
          rw [isCompilableLoop_lit, isCompilableLoop_operation prims (by decide) (by decide)]
          exact ih true

/-- Room for every stream in the buffer. -/
structure Roomy (B : Backend unit instr) (movUnits k : Nat) : Prop where
  perWord : UnitsPerWord movUnits k
  pos : 1 ≤ k
  fits : k * maxStreamWords ≤ B.capWords

/-- The code of the stream and the return behind it. -/
theorem compile_of_appends {words : List Word} {units : List unit} {u : unit}
    (hroom : units.length + 1 ≤ B.capWords)
    (happ : Appends units (compileLoop B prims words false))
    (hret : Appends [u] B.emitter.ret) :
    compile B prims words { capWords := B.capWords, code := [] } =
      .ok () { capWords := B.capWords, code := units ++ [u] } := by
  have h := appends_bind happ (appends_orFail hret)
    { capWords := B.capWords, code := [] } (by simpa using hroom)
  rw [List.nil_append] at h
  exact h

/-- Code that was emitted, ended by a return and called. -/
theorem compileAndRun_of_units (hB : BackendLaws B loaded movUnits) (program : StreamProgram)
    (bus : Bus Word Word σ) (s : σ) (regs : Nat -> Word) (stale : List unit)
    {units : List unit} {c : Core σ}
    (hcompilable : isCompilable prims program.stream.words = true)
    (hroom : units.length + 1 ≤ B.capWords)
    (happ : Appends units (compileLoop B prims program.stream.words false))
    (hrun : Executes B.isa bus units ⟨regs, s, []⟩ c) :
    compileAndRun B prims bus program s regs stale =
      .returned (if program.yieldsValue then some (c.regs B.acc.toNat) else none) c := by
  obtain ⟨u, happRet, hret⟩ := hB.ret
  have hcompile := compile_of_appends prims hroom happ happRet
  obtain ⟨n, hn, hexec⟩ := hrun
  have hfuel : (units ++ [u] ++ stale).length = (units.length - n + stale.length + 1) + n := by
    rw [List.length_append, List.length_append, List.length_singleton]
    lia
  have hcall : B.isa.run bus (units ++ [u] ++ stale).length (units ++ [u] ++ stale)
      ⟨regs, s, []⟩ = some c := by
    rw [hfuel, List.append_assoc, hexec]
    exact hret bus c _ _
  unfold compileAndRun
  rw [if_neg (by rw [hcompilable]; decide), hcompile]
  simp only [hcall]

theorem compileAndRun_blocks (hB : BackendLaws B loaded movUnits) (hroomy : Roomy B movUnits k)
    {bs : List Block} {program : StreamProgram}
    (hwords : program.stream.words = blockWords prims bs ++ [prims.wordOf .halt])
    (hyields : program.yieldsValue = false)
    (bus : Bus Word Word σ) (s : σ) (regs : Nat -> Word) (stale : List unit) :
    compileAndRun B prims bus program s regs stale =
      .returned none (nativeBlocks B loaded bus false bs ⟨regs, s, []⟩) := by
  obtain ⟨units, hlen, happ, hrun⟩ := compile_blocks prims hB hroomy.perWord false bs
  have hwordsLen : (blockWords prims bs).length + 1 ≤ maxStreamWords := by
    have hle := program.stream.length_le
    rw [hwords, List.length_append, List.length_singleton] at hle
    exact hle
  have hroom : units.length + 1 ≤ B.capWords := by
    have hmul := Nat.mul_le_mul_left k hwordsLen
    rw [Nat.mul_add, Nat.mul_one] at hmul
    have hpos := hroomy.pos
    have hfits := hroomy.fits
    lia
  have h := compileAndRun_of_units prims hB program bus s regs stale
    (by rw [hwords]; exact isCompilable_blocks prims bs false) hroom
    (by rw [hwords]; exact happ) (hrun bus _)
  rw [h, hyields]
  rfl

theorem compileAndRun_value (hB : BackendLaws B loaded movUnits) (hroomy : Roomy B movUnits k)
    {v : Word} {program : StreamProgram}
    (hwords : program.stream.words = [prims.wordOf .lit, v, prims.wordOf .halt])
    (hyields : program.yieldsValue = true)
    (bus : Bus Word Word σ) (s : σ) (regs : Nat -> Word) (stale : List unit) :
    compileAndRun B prims bus program s regs stale =
      .returned (some (loaded v)) (Core.set ⟨regs, s, []⟩ B.acc.toNat (loaded v)) := by
  obtain ⟨units, hlen, happ, hrun⟩ := hB.mov B.acc (Or.inl rfl) v
  have happLoop : Appends units (compileLoop B prims program.stream.words false) := by
    rw [hwords, compileLoop_lit, List.headD_cons, literal_before_halt, compileLoop_halt]
    have hnone : Appends [] (pure () : CompileM unit Unit) := appends_pure
    have h := appends_bind (appends_orFail happ) hnone
    rw [List.append_nil] at h
    exact h
  have hroom : units.length + 1 ≤ B.capWords := by
    have hperWord := hroomy.perWord.peek
    have hmul : k * 3 ≤ k * maxStreamWords := Nat.mul_le_mul_left k (by decide)
    have hfits := hroomy.fits
    lia
  have hcompilable : isCompilable prims program.stream.words = true := by
    unfold isCompilable
    rw [hwords, isCompilableLoop_lit, isCompilableLoop_halt]
  rw [compileAndRun_of_units prims hB program bus s regs stale hcompilable hroom happLoop
    (hrun bus _), hyields]
  simp

end Programs

end Execution
end HolyRust
