import HolyRust.Execution.Arithmetic
import HolyRust.Execution.CodeSize

/-!
# Expression streams

Streams of literals and arithmetic, which the threaded machine runs as reverse
Polish notation.  The native compiler keeps one value in the accumulator and one
in the scratch register, so that it is right for the streams that never hold
more than two values.  It refuses none of the others.
-/

namespace HolyRust
namespace Execution

open Foundation
open Compilation
open Isa

/-- A literal or an operation of an expression. -/
inductive RpnItem where
  | lit (v : Word)
  | op (o : ArithOp)
deriving DecidableEq, Repr

namespace ArithOp

def prim : ArithOp -> Prim
  | .add => .add
  | .sub => .sub
  | .mul => .mul
  | .div => .div

/-- What the threaded primitive pushes for `a` and `b`. -/
def threaded : ArithOp -> Word -> Word -> Word
  | .add, a, b => a + b
  | .sub, a, b => a - b
  | .mul, a, b => a * b
  | .div, a, b => divOrZero a b

end ArithOp

section Rpn

def RpnItem.words (prims : Prims) : RpnItem -> List Word
  | .lit v => [prims.wordOf .lit, v]
  | .op o => [prims.wordOf o.prim]

def rpnWords (prims : Prims) (items : List RpnItem) : List Word :=
  items.flatMap (RpnItem.words prims)

/-- The depth of the operand stack after the items, if none of them pops an empty stack. -/
def depthAfter : Nat -> List RpnItem -> Option Nat
  | n, [] => some n
  | n, .lit _ :: items => depthAfter (n + 1) items
  | n + 2, .op _ :: items => depthAfter (n + 1) items
  | _, .op _ :: _ => none

/-- The most values that the stack holds on the way. -/
def peakDepth : Nat -> List RpnItem -> Nat
  | n, [] => n
  | n, .lit _ :: items => max n (peakDepth (n + 1) items)
  | n, .op _ :: items => max n (peakDepth (n - 1) items)

/-- The items are an expression: no empty stack is popped, and one value is left. -/
def ValidRpn (items : List RpnItem) : Prop := depthAfter 0 items = some 1

/-- The operand stack after the items, top first. -/
def rpnStack : List RpnItem -> List Word -> List Word
  | [], xs => xs
  | .lit v :: items, xs => rpnStack items (v :: xs)
  | .op o :: items, b :: a :: xs => rpnStack items (o.threaded a b :: xs)
  | .op _ :: items, xs => rpnStack items xs

def literals : List RpnItem -> List Word
  | [] => []
  | .lit v :: items => v :: literals items
  | .op _ :: items => literals items

theorem length_literals_le (prims : Prims) (items : List RpnItem) :
    2 * (literals items).length ≤ (rpnWords prims items).length := by
  induction items with
  | nil => exact Nat.le_refl 0
  | cons item items ih =>
      cases item with
      | lit v =>
          show 2 * ((literals items).length + 1) ≤ (rpnWords prims items).length + 1 + 1
          lia
      | op o =>
          show 2 * (literals items).length ≤ (rpnWords prims items).length + 1
          lia

end Rpn

/-!
## The threaded run
-/

section Threaded

variable (prims : Prims) (bus : Bus Word Word σ)

theorem operate_arith (o : ArithOp) (vm : Vm σ) :
    operate bus o.prim vm = binaryPrim o.threaded vm := by
  cases o <;> rfl

theorem run_arith (ip : Nat) (o : ArithOp) (rest : List Word) (vm : Vm σ) :
    runThreadedStream prims bus ip (prims.wordOf o.prim :: rest) vm =
      runThreadedStream prims bus (ip + 1) rest (binaryPrim o.threaded (vm.mark ip)) := by
  rw [run_operate _ _ _ _ _ (by cases o <;> decide) (by cases o <;> decide), operate_arith]

theorem items_push {vm : Vm σ} (v : Word) (h : vm.stack.items.length < vmStackSize) :
    (vm.push v).stack.items = v :: vm.stack.items := by
  rw [Vm.push_of_room vm h]

theorem pop_of_items {vm : Vm σ} {v : Word} {xs : List Word} (h : vm.stack.items = v :: xs) :
    vm.pop.1 = v ∧ vm.pop.2.stack.items = xs := by
  obtain ⟨⟨items, hlength⟩, s, trace, dispatched, dropped, underflows⟩ := vm
  cases h
  exact ⟨rfl, rfl⟩

theorem items_binaryPrim {vm : Vm σ} (f : Word -> Word -> Word) {a b : Word} {xs : List Word}
    (h : vm.stack.items = b :: a :: xs) : (binaryPrim f vm).stack.items = f a b :: xs := by
  obtain ⟨hb, hrest⟩ := pop_of_items h
  obtain ⟨ha, hxs⟩ := pop_of_items hrest
  have hroom : vm.pop.2.pop.2.stack.items.length < vmStackSize := by
    have hle := vm.stack.length_le
    rw [h, List.length_cons, List.length_cons] at hle
    rw [hxs]
    lia
  show ((vm.pop.2.pop.2).push (f vm.pop.2.pop.1 vm.pop.1)).stack.items = _
  rw [items_push _ hroom, ha, hb, hxs]

/-- The machine computes the stack, as long as there is room for the literals. -/
theorem run_rpn (items : List RpnItem) (ip : Nat) (rest : List Word) (vm : Vm σ) {d : Nat}
    (hdepth : depthAfter vm.stack.items.length items = some d)
    (hroom : vm.stack.items.length + (literals items).length ≤ vmStackSize) :
    exists ip' vm', runThreadedStream prims bus ip (rpnWords prims items ++ rest) vm =
        runThreadedStream prims bus ip' rest vm' ∧
      vm'.stack.items = rpnStack items vm.stack.items ∧ vm'.stack.items.length = d := by
  induction items generalizing ip vm with
  | nil =>
      rw [depthAfter] at hdepth
      cases hdepth
      exact ⟨ip, vm, rfl, rfl, rfl⟩
  | cons item items ih =>
      cases item with
      | lit v =>
          change vm.stack.items.length + ((literals items).length + 1) ≤ vmStackSize at hroom
          have hfree : (vm.mark ip).stack.items.length < vmStackSize := by
            show vm.stack.items.length < vmStackSize
            lia
          have hitems := items_push v hfree
          change ((vm.mark ip).push v).stack.items = v :: vm.stack.items at hitems
          obtain ⟨ip', vm', hrun, hstack, hlength⟩ := ih (ip + 2) ((vm.mark ip).push v)
            (by rw [hitems]; exact hdepth)
            (by rw [hitems, List.length_cons]; lia)
          refine ⟨ip', vm', ?_, ?_, hlength⟩
          · show runThreadedStream prims bus ip (prims.wordOf .lit :: v ::
              (rpnWords prims items ++ rest)) vm = _
            rw [run_lit, hrun]
          · rw [hstack, hitems]
            rfl
      | op o =>
          cases hstack : vm.stack.items with
          | nil =>
              rw [hstack] at hdepth
              cases hdepth
          | cons b xs =>
              cases xs with
              | nil =>
                  rw [hstack] at hdepth
                  cases hdepth
              | cons a xs =>
                  have hitems : (binaryPrim o.threaded (vm.mark ip)).stack.items =
                      o.threaded a b :: xs := items_binaryPrim o.threaded hstack
                  change vm.stack.items.length + (literals items).length ≤ vmStackSize at hroom
                  rw [hstack] at hdepth hroom
                  obtain ⟨ip', vm', hrun, hafter, hlength⟩ := ih (ip + 1)
                    (binaryPrim o.threaded (vm.mark ip))
                    (by rw [hitems]; exact hdepth)
                    (by
                      rw [hitems]
                      simp only [List.length_cons] at hroom ⊢
                      lia)
                  refine ⟨ip', vm', ?_, ?_, hlength⟩
                  · show runThreadedStream prims bus ip (prims.wordOf o.prim ::
                      (rpnWords prims items ++ rest)) vm = _
                    rw [run_arith, hrun]
                  · rw [hafter, hitems]
                    rfl

/-- The threaded path yields the value of the expression. -/
theorem runThreaded_rpn {items : List RpnItem} {program : StreamProgram}
    (hvalid : ValidRpn items)
    (hwords : program.stream.words = rpnWords prims items ++ [prims.wordOf .halt])
    (hyields : program.yieldsValue = true) (s : σ) :
    exists v, rpnStack items [] = [v] ∧ (runThreaded prims bus program s).1 = some v := by
  have hle := program.stream.length_le
  rw [hwords, List.length_append, List.length_singleton] at hle
  have hlits := length_literals_le prims items
  have hroom : 0 + (literals items).length ≤ vmStackSize := by
    unfold maxStreamWords at hle
    unfold vmStackSize
    lia
  obtain ⟨ip, vm, hrun, hstack, hlength⟩ := run_rpn prims bus items 0
    (prims.wordOf .halt :: List.replicate (maxStreamWords - program.stream.words.length) 0#32)
    (Vm.start s) hvalid hroom
  change vm.stack.items = rpnStack items [] at hstack
  obtain ⟨v, hv⟩ := List.length_eq_one_iff.mp hlength
  refine ⟨v, hstack.symm.trans hv, ?_⟩
  have hlen : 0 < program.stream.words.length := by
    rw [hwords, List.length_append, List.length_singleton]
    lia
  have harray : StreamProgram.array program = rpnWords prims items ++
      (prims.wordOf .halt ::
        List.replicate (maxStreamWords - program.stream.words.length) 0#32) := by
    show program.stream.words ++
      List.replicate (maxStreamWords - program.stream.words.length) 0#32 = _
    rw [hwords, List.append_assoc]
    rfl
  have hpop := (pop_of_items (show (vm.mark ip).stack.items = [v] from hv)).left
  unfold runThreaded
  simp only [hyields, if_pos hlen, harray, hrun, run_halt, if_true, hpop]

end Threaded

/-!
## Chains
-/

/-- A value, and again and again a literal and an operation on both. -/
def chainSteps : List (Word × ArithOp) -> List RpnItem
  | [] => []
  | (b, o) :: steps => .lit b :: .op o :: chainSteps steps

/-- What the threaded machine makes of a chain. -/
def threadedChain : Word -> List (Word × ArithOp) -> Word
  | x, [] => x
  | x, (b, o) :: steps => threadedChain (o.threaded x b) steps

theorem rpnStack_chainSteps (steps : List (Word × ArithOp)) (x : Word) (xs : List Word) :
    rpnStack (chainSteps steps) (x :: xs) = threadedChain x steps :: xs := by
  induction steps generalizing x with
  | nil => rfl
  | cons step steps ih =>
      obtain ⟨b, o⟩ := step
      show rpnStack (chainSteps steps) (o.threaded x b :: xs) = _
      rw [ih]
      rfl

theorem le_peakDepth (n : Nat) (items : List RpnItem) : n ≤ peakDepth n items := by
  cases items with
  | nil => exact Nat.le_refl n
  | cons item items =>
      cases item with
      | lit v => exact Nat.le_max_left _ _
      | op o => exact Nat.le_max_left _ _

/-- From one value to one value with never more than two. -/
theorem exists_chainSteps {items : List RpnItem} (hdepth : depthAfter 1 items = some 1)
    (hpeak : peakDepth 1 items ≤ 2) : exists steps, items = chainSteps steps := by
  match items with
  | [] => exact ⟨[], rfl⟩
  | .op o :: rest => cases hdepth
  | [.lit b] => cases hdepth
  | .lit b :: .lit b' :: rest =>
      have hthree := le_peakDepth 3 rest
      change max 1 (max 2 (peakDepth 3 rest)) ≤ 2 at hpeak
      lia
  | .lit b :: .op o :: rest =>
      change depthAfter 1 rest = some 1 at hdepth
      change max 1 (max 2 (peakDepth 1 rest)) ≤ 2 at hpeak
      obtain ⟨steps, hsteps⟩ := exists_chainSteps hdepth (by lia)
      exact ⟨(b, o) :: steps, by rw [hsteps]; rfl⟩

/-- Expressions with at most two values at a time are chains. -/
theorem exists_chain {items : List RpnItem} (hvalid : ValidRpn items)
    (hpeak : peakDepth 0 items ≤ 2) : exists a steps, items = .lit a :: chainSteps steps := by
  match items with
  | [] => cases hvalid
  | .op o :: rest => cases hvalid
  | .lit a :: rest =>
      change max 0 (peakDepth 1 rest) ≤ 2 at hpeak
      obtain ⟨steps, hsteps⟩ := exists_chainSteps hvalid (by lia)
      exact ⟨a, steps, by rw [hsteps]⟩

/-!
## Native code of a chain
-/

/-- From `c`, the units never come to a return. -/
def Traps (isa : Leaf unit instr) (bus : Bus Word Word σ) (units : List unit) (c : Core σ) :
    Prop :=
  forall fuel rest, units.length ≤ fuel -> isa.run bus fuel (units ++ rest) c = none

theorem traps_append {isa : Leaf unit instr} {bus : Bus Word Word σ} {us vs : List unit}
    {c c' : Core σ} (h : Executes isa bus us c c') (h' : Traps isa bus vs c') :
    Traps isa bus (us ++ vs) c := by
  obtain ⟨n, hn, hrun⟩ := h
  intro fuel rest hfuel
  rw [List.length_append] at hfuel
  rw [List.append_assoc, show fuel = fuel - n + n by lia, hrun]
  exact h' (fuel - n) rest (by lia)

theorem traps_of_append {isa : Leaf unit instr} {bus : Bus Word Word σ} {us : List unit}
    {c : Core σ} (h : Traps isa bus us c) (vs : List unit) : Traps isa bus (us ++ vs) c := by
  intro fuel rest hfuel
  rw [List.length_append] at hfuel
  rw [List.append_assoc]
  exact h fuel (vs ++ rest) (by lia)

/-- Units that do not decode are a trap. -/
theorem traps_undecodable {isa : Leaf unit instr} {units : List unit}
    (h : forall rest, isa.decode (units ++ rest) = none) (bus : Bus Word Word σ) (c : Core σ) :
    Traps isa bus units c := by
  intro fuel rest _
  cases fuel with
  | zero => rfl
  | succ fuel => rw [Leaf.run, h]

/-- The code of the operations on the two registers; `none` stands for code that traps. -/
structure ArithLaws (B : Backend unit instr) (value : ArithOp -> Option (Word -> Word -> Word))
    (k : Nat) : Prop where
  code : forall o, exists units, units.length ≤ k ∧
    Appends units (o.emit B.emitter B.acc B.acc B.scratch) ∧
      forall {σ : Type} (bus : Bus Word Word σ) (c : Core σ),
        match value o with
        | some f =>
            Executes B.isa bus units c
              (c.set B.acc.toNat (f (c.regs B.acc.toNat) (c.regs B.scratch.toNat)))
        | none => Traps B.isa bus units c

/-- What the native code of a chain leaves in the accumulator. -/
def nativeChain (loaded : Word -> Word) (value : ArithOp -> Option (Word -> Word -> Word)) :
    Word -> List (Word × ArithOp) -> Option Word
  | x, [] => some x
  | x, (b, o) :: steps =>
      match value o with
      | none => none
      | some f => nativeChain loaded value (f x (loaded b)) steps

section Compile

variable {B : Backend unit instr} (prims : Prims)

theorem operation_arith (o : ArithOp) (accLoaded : Bool) :
    operation B prims (prims.wordOf o.prim) accLoaded =
      some (o.emit B.emitter B.acc B.acc B.scratch, true) := by
  unfold operation
  cases o with
  | add => exact if_pos rfl
  | sub => exact (if_neg (wordOf_ne prims (by decide))).trans (if_pos rfl)
  | mul =>
      exact (if_neg (wordOf_ne prims (by decide))).trans
        ((if_neg (wordOf_ne prims (by decide))).trans (if_pos rfl))
  | div =>
      exact (if_neg (wordOf_ne prims (by decide))).trans
        ((if_neg (wordOf_ne prims (by decide))).trans
          ((if_neg (wordOf_ne prims (by decide))).trans (if_pos rfl)))

theorem compileLoop_arith (o : ArithOp) (rest : List Word) (accLoaded : Bool) :
    compileLoop B prims (prims.wordOf o.prim :: rest) accLoaded = (do
      orFail (o.emit B.emitter B.acc B.acc B.scratch)
      compileLoop B prims rest true) := by
  have hhalt : prims.wordOf o.prim ≠ prims.wordOf .halt :=
    wordOf_ne prims (by cases o <;> decide)
  have hlit : prims.wordOf o.prim ≠ prims.wordOf .lit :=
    wordOf_ne prims (by cases o <;> decide)
  rw [compileLoop.eq_def]
  simp only [if_neg (prims.wordOf_ne_zero _), if_neg hhalt, if_neg hlit, operation_arith]

/-- A literal that is no address. -/
theorem literal_plain (val : Word) {p : Prim} (hload : p ≠ .loadReg) (hwrite : p ≠ .writeReg)
    (accLoaded : Bool) :
    literal B prims val (prims.wordOf p) accLoaded =
      (B.emitter.movImm (if accLoaded then B.scratch else B.acc) val, true) := by
  unfold literal
  rw [if_neg (not_or.mpr ⟨wordOf_ne prims hload, wordOf_ne prims hwrite⟩)]
  cases accLoaded <;> rfl

theorem compileLoop_step (b : Word) (o : ArithOp) (rest : List Word) :
    compileLoop B prims (prims.wordOf .lit :: b :: prims.wordOf o.prim :: rest) true = (do
      orFail (B.emitter.movImm B.scratch b)
      orFail (o.emit B.emitter B.acc B.acc B.scratch)
      compileLoop B prims rest true) := by
  rw [compileLoop_lit, List.headD_cons,
    literal_plain prims b (by cases o <;> decide) (by cases o <;> decide), compileLoop_arith]
  rfl

variable {loaded : Word -> Word} {value : ArithOp -> Option (Word -> Word -> Word)} {k : Nat}

/-- The code of the steps, by induction on them: one value is in the accumulator before and
after each. -/
theorem compile_chainSteps (hB : BackendLaws B loaded (2 * k)) (hA : ArithLaws B value k)
    (steps : List (Word × ArithOp)) :
    exists units, units.length ≤ k * (rpnWords prims (chainSteps steps)).length ∧
      Appends units (compileLoop B prims
        (rpnWords prims (chainSteps steps) ++ [prims.wordOf .halt]) true) ∧
      forall {σ : Type} (bus : Bus Word Word σ) (c : Core σ),
        match nativeChain loaded value (c.regs B.acc.toNat) steps with
        | some v => exists c', Executes B.isa bus units c c' ∧ c'.regs B.acc.toNat = v
        | none => Traps B.isa bus units c := by
  induction steps with
  | nil =>
      refine ⟨[], Nat.zero_le _, ?_, fun bus c => ⟨c, executes_nil _ bus c, rfl⟩⟩
      show Appends [] (compileLoop B prims [prims.wordOf .halt] true)
      rw [compileLoop_halt]
      exact appends_pure
  | cons step steps ih =>
      obtain ⟨b, o⟩ := step
      obtain ⟨us1, hlen1, happ1, hrun1⟩ := hB.mov B.scratch (Or.inr rfl) b
      obtain ⟨us2, hlen2, happ2, hrun2⟩ := hA.code o
      obtain ⟨us3, hlen3, happ3, hrun3⟩ := ih
      refine ⟨us1 ++ (us2 ++ us3), ?_, ?_, ?_⟩
      · show _ ≤ k * ((rpnWords prims (chainSteps steps)).length + 1 + 1 + 1)
        rw [List.length_append, List.length_append]
        lia
      · show Appends _ (compileLoop B prims (prims.wordOf .lit :: b :: prims.wordOf o.prim ::
          (rpnWords prims (chainSteps steps) ++ [prims.wordOf .halt])) true)
        rw [compileLoop_step]
        exact appends_bind (appends_orFail happ1) (appends_bind (appends_orFail happ2) happ3)
      · intro σ bus c
        have hfirst := hrun1 bus c
        have hsecond := hrun2 bus (c.set B.scratch.toNat (loaded b))
        rw [nativeChain]
        rw [Core.set_regs, Core.set_regs, if_pos rfl, if_neg hB.distinct] at hsecond
        cases hvalue : value o with
        | none =>
            rw [hvalue] at hsecond
            exact traps_append hfirst (traps_of_append hsecond us3)
        | some f =>
            rw [hvalue] at hsecond
            have hthird := hrun3 bus ((c.set B.scratch.toNat (loaded b)).set B.acc.toNat
              (f (c.regs B.acc.toNat) (loaded b)))
            rw [Core.set_regs, if_pos rfl] at hthird
            dsimp only at hsecond ⊢
            cases hchain : nativeChain loaded value (f (c.regs B.acc.toNat) (loaded b)) steps with
            | none =>
                rw [hchain] at hthird
                exact traps_append hfirst (traps_append hsecond hthird)
            | some v =>
                rw [hchain] at hthird
                obtain ⟨c', hc', hv⟩ := hthird
                exact ⟨c', executes_append hfirst (executes_append hsecond hc'), hv⟩

/-- Code that was emitted and called, and traps. -/
theorem compileAndRun_of_traps (hB : BackendLaws B loaded (2 * k)) (program : StreamProgram)
    (bus : Bus Word Word σ) (s : σ) (regs : Nat -> Word) (stale : List unit) {units : List unit}
    (hcompilable : isCompilable prims program.stream.words = true)
    (hroom : units.length + 1 ≤ B.capWords)
    (happ : Appends units (compileLoop B prims program.stream.words false))
    (htraps : Traps B.isa bus units ⟨regs, s, []⟩) :
    compileAndRun B prims bus program s regs stale = .lost := by
  obtain ⟨u, happRet, _⟩ := hB.ret
  have hcall : B.isa.run bus (units ++ [u] ++ stale).length (units ++ [u] ++ stale)
      ⟨regs, s, []⟩ = none := by
    rw [List.append_assoc]
    exact htraps _ _ (by rw [List.length_append]; lia)
  unfold compileAndRun
  rw [if_neg (by rw [hcompilable]; decide), compile_of_appends prims hroom happ happRet]
  simp only [hcall]

theorem isCompilable_rpn (items : List RpnItem) (litSeen : Bool) :
    isCompilableLoop prims (rpnWords prims items ++ [prims.wordOf .halt]) litSeen = true := by
  induction items generalizing litSeen with
  | nil => exact isCompilableLoop_halt prims [] litSeen
  | cons item items ih =>
      cases item with
      | lit v =>
          show isCompilableLoop prims (prims.wordOf .lit :: v ::
            (rpnWords prims items ++ [prims.wordOf .halt])) litSeen = true
          rw [isCompilableLoop_lit]
          exact ih true
      | op o =>
          show isCompilableLoop prims (prims.wordOf o.prim ::
            (rpnWords prims items ++ [prims.wordOf .halt])) litSeen = true
          rw [isCompilableLoop_operation prims (by cases o <;> decide) (by cases o <;> decide)]
          exact ih true

theorem litsComplete_rpn (items : List RpnItem) :
    litsComplete prims (rpnWords prims items ++ [prims.wordOf .halt]) = true := by
  induction items with
  | nil => exact litsComplete_halt []
  | cons item items ih =>
      cases item with
      | lit v =>
          show litsComplete prims (prims.wordOf .lit :: v ::
            (rpnWords prims items ++ [prims.wordOf .halt])) = true
          rw [litsComplete_lit]
          exact ih
      | op o =>
          show litsComplete prims (prims.wordOf o.prim ::
            (rpnWords prims items ++ [prims.wordOf .halt])) = true
          rw [litsComplete_cons (prims.wordOf_ne_zero _) (wordOf_ne prims (by cases o <;> decide))
            (wordOf_ne prims (by cases o <;> decide))]
          exact ih

/-- The first literal goes to the accumulator. -/
theorem compileLoop_first (a : Word) (steps : List (Word × ArithOp)) :
    compileLoop B prims
        (rpnWords prims (.lit a :: chainSteps steps) ++ [prims.wordOf .halt]) false = (do
      orFail (B.emitter.movImm B.acc a)
      compileLoop B prims (rpnWords prims (chainSteps steps) ++ [prims.wordOf .halt]) true) := by
  show compileLoop B prims (prims.wordOf .lit :: a ::
    (rpnWords prims (chainSteps steps) ++ [prims.wordOf .halt])) false = _
  rw [compileLoop_lit]
  cases steps with
  | nil =>
      show (do
        orFail (literal B prims a (prims.wordOf .halt) false).1
        compileLoop B prims _ (literal B prims a (prims.wordOf .halt) false).2) = _
      rw [literal_plain prims a (by decide) (by decide)]
      rfl
  | cons step steps =>
      show (do
        orFail (literal B prims a (prims.wordOf .lit) false).1
        compileLoop B prims _ (literal B prims a (prims.wordOf .lit) false).2) = _
      rw [literal_plain prims a (by decide) (by decide)]
      rfl

/-- Native code of a chain returns its value, or traps in an operation. -/
theorem compileAndRun_chain (hB : BackendLaws B loaded (2 * k)) (hA : ArithLaws B value k)
    (hcap : k * maxStreamWords + 1 ≤ B.capWords) {a : Word} {steps : List (Word × ArithOp)}
    {program : StreamProgram}
    (hwords : program.stream.words =
      rpnWords prims (.lit a :: chainSteps steps) ++ [prims.wordOf .halt])
    (hyields : program.yieldsValue = true)
    (bus : Bus Word Word σ) (s : σ) (regs : Nat -> Word) (stale : List unit) :
    match nativeChain loaded value (loaded a) steps with
    | some v => exists core, compileAndRun B prims bus program s regs stale =
        .returned (some v) core
    | none => compileAndRun B prims bus program s regs stale = .lost := by
  obtain ⟨us, hus, happ, hmov⟩ := hB.mov B.acc (Or.inl rfl) a
  obtain ⟨vs, hvs, happSteps, hsteps⟩ := compile_chainSteps prims hB hA steps
  have hloop : Appends (us ++ vs) (compileLoop B prims program.stream.words false) := by
    rw [hwords, compileLoop_first]
    exact appends_bind (appends_orFail happ) happSteps
  have hcompilable : isCompilable prims program.stream.words = true := by
    rw [hwords]
    exact isCompilable_rpn prims _ false
  have hroom : (us ++ vs).length + 1 ≤ B.capWords := by
    have hle := program.stream.length_le
    rw [hwords] at hle
    change (rpnWords prims (chainSteps steps) ++ [prims.wordOf .halt]).length + 1 + 1 ≤ _ at hle
    rw [List.length_append, List.length_singleton] at hle
    have hmul := Nat.mul_le_mul_left k hle
    rw [List.length_append]
    lia
  have hfirst := hmov bus (⟨regs, s, []⟩ : Core σ)
  have hrest := hsteps bus ((⟨regs, s, []⟩ : Core σ).set B.acc.toNat (loaded a))
  rw [Core.set_regs, if_pos rfl] at hrest
  cases hchain : nativeChain loaded value (loaded a) steps with
  | none =>
      rw [hchain] at hrest
      exact compileAndRun_of_traps prims hB program bus s regs stale hcompilable hroom hloop
        (traps_append hfirst hrest)
  | some v =>
      rw [hchain] at hrest
      obtain ⟨c', hc', hv⟩ := hrest
      refine ⟨c', ?_⟩
      rw [compileAndRun_of_units prims hB program bus s regs stale hcompilable hroom hloop
        (executes_append hfirst hc'), hyields, hv]
      rfl

end Compile

/-!
## When native code is right
-/

/-- A value that native code returns is the one of the threaded path, and a stream that needs
more than two values at a time is refused. -/
structure NativeExact (B : Backend unit instr) (prims : Prims) (items : List RpnItem)
    (program : StreamProgram) : Prop where
  agrees : forall (σ : Type) (bus : Bus Word Word σ) (s : σ) (regs : Nat -> Word)
    (stale : List unit) (value : Option Word) (core : Core σ),
    compileAndRun B prims bus program s regs stale = .returned value core ->
      value = (runThreaded prims bus program s).1
  refuses : 2 < peakDepth 0 items -> forall (σ : Type) (bus : Bus Word Word σ) (s : σ)
    (regs : Nat -> Word) (stale : List unit),
    compileAndRun B prims bus program s regs stale = .refused

section Exact

variable {B : Backend unit instr} {prims : Prims} {items : List RpnItem}
  {program : StreamProgram} {k : Nat}

/-- No expression is refused, so none may be too deep. -/
theorem NativeExact.peakDepth_le (hB : EmitterFits B k)
    (hwords : program.stream.words = rpnWords prims items ++ [prims.wordOf .halt])
    (h : NativeExact B prims items program) : peakDepth 0 items ≤ 2 := by
  by_contra hdeep
  have hrefused := h.refuses (by lia) Unit (Bus.constant 0#32) () (fun _ => 0#32) []
  rcases refusesOnlyStreams hB prims program _ _ _ _ hrefused with hstream | hstream
  · rw [hwords] at hstream
    exact Bool.noConfusion (hstream.symm.trans (isCompilable_rpn prims items false))
  · rw [hwords] at hstream
    exact Bool.noConfusion (hstream.symm.trans (litsComplete_rpn prims items))

variable {loaded : Word -> Word} {value : ArithOp -> Option (Word -> Word -> Word)}

/-- On chains it is a matter of the value. -/
theorem nativeExact_chain (hB : BackendLaws B loaded (2 * k)) (hA : ArithLaws B value k)
    (hcap : k * maxStreamWords + 1 ≤ B.capWords) {a : Word} {steps : List (Word × ArithOp)}
    (hvalid : ValidRpn (.lit a :: chainSteps steps))
    (hpeak : peakDepth 0 (.lit a :: chainSteps steps) ≤ 2)
    (hwords : program.stream.words =
      rpnWords prims (.lit a :: chainSteps steps) ++ [prims.wordOf .halt])
    (hyields : program.yieldsValue = true)
    (hvalue : forall v, nativeChain loaded value (loaded a) steps = some v ->
      v = threadedChain a steps) :
    NativeExact B prims (.lit a :: chainSteps steps) program where
  agrees := by
    intro σ bus s regs stale result core hreturned
    have hnative := compileAndRun_chain prims hB hA hcap hwords hyields bus s regs stale
    obtain ⟨v, hstack, hthreaded⟩ := runThreaded_rpn prims bus hvalid hwords hyields s
    rw [rpnStack, rpnStack_chainSteps] at hstack
    rw [hthreaded]
    cases hchain : nativeChain loaded value (loaded a) steps with
    | none =>
        rw [hchain] at hnative
        dsimp only at hnative
        rw [hnative] at hreturned
        cases hreturned
    | some w =>
        rw [hchain] at hnative
        obtain ⟨core', hnative⟩ := hnative
        rw [hnative] at hreturned
        injection hreturned with hresult
        rw [← hresult, hvalue w hchain, (List.cons.inj hstack).left]
  refuses := fun hdeep => absurd hdeep (Nat.not_lt.mpr hpeak)

end Exact

/-!
## Thumb-2
-/

/-- SDIV traps; the others compute what the threaded primitives do. -/
def thumbValue : ArithOp -> Option (Word -> Word -> Word)
  | .div => none
  | o => some o.threaded

theorem thumb2_arithLaws : ArithLaws thumb2Backend thumbValue 2 where
  code := by
    intro o
    cases o with
    | add =>
        obtain ⟨units, hlen, hemits, hexec⟩ := thumb2_add_implements
          (show 0#8 ≤ 7#8 by decide) (show 0#8 ≤ 7#8 by decide) (show 1#8 ≤ 7#8 by decide)
        exact ⟨units, hlen.trans (by decide), hemits.appends, hexec⟩
    | sub =>
        obtain ⟨units, hlen, hemits, hexec⟩ := thumb2_sub_implements
          (show 0#8 ≤ 7#8 by decide) (show 0#8 ≤ 7#8 by decide) (show 1#8 ≤ 7#8 by decide)
        exact ⟨units, hlen.trans (by decide), hemits.appends, hexec⟩
    | mul =>
        obtain ⟨units, hlen, hemits, hexec⟩ := thumb2_mul_implements
          (show 0#8 ≤ 7#8 by decide) (show 0#8 ≤ 7#8 by decide) (show 1#8 ≤ 7#8 by decide)
        exact ⟨units, hlen, hemits.appends, hexec⟩
    | div =>
        have hemits := thumb2_div_emits (show 0#8 ≤ 7#8 by decide)
          (show 0#8 ≤ 7#8 by decide) (show 1#8 ≤ 7#8 by decide)
        refine ⟨[_, _], Nat.le_refl 2, hemits.appends, ?_⟩
        intro σ bus c
        refine traps_undecodable ?_ bus c
        exact decode_sdiv (show 0#8 ≤ 7#8 by decide) (show 0#8 ≤ 7#8 by decide)
          (show 1#8 ≤ 7#8 by decide)

theorem thumbChain_eq (steps : List (Word × ArithOp)) (x v : Word)
    (h : nativeChain (fun b => b) thumbValue x steps = some v) : v = threadedChain x steps := by
  induction steps generalizing x with
  | nil =>
      cases h
      rfl
  | cons step steps ih =>
      obtain ⟨b, o⟩ := step
      cases o with
      | add => exact ih _ h
      | sub => exact ih _ h
      | mul => exact ih _ h
      | div => cases h

/-!
## RV32
-/

theorem rv32_arithLaws : ArithLaws riscv32Backend (fun o => some o.rvValue) 1 where
  code := by
    intro o
    refine ⟨[o.rvUnit 10#8 10#8 11#8], Nat.le_refl 1, ?_, ?_⟩
    · show Appends _ (o.emit riscv32Emitter 10#8 10#8 11#8)
      rw [emit_riscv32]
      exact appends_pushUnit _
    · intro σ bus c
      exact rvUnit_executes o 10#8 10#8 11#8 bus c

/-- Every division on the way has a divisor other than zero and the same quotient with and
without signs. -/
def divisionsAgree : List RpnItem -> List Word -> Bool
  | [], _ => true
  | .lit v :: items, xs => divisionsAgree items (v :: xs)
  | .op o :: items, b :: a :: xs =>
      (decide (o = .div -> b ≠ 0#32 ∧ a.sdiv b = a / b)) &&
        divisionsAgree items (o.threaded a b :: xs)
  | .op _ :: items, xs => divisionsAgree items xs

theorem rvValue_eq_threaded {o : ArithOp} {x y : Word}
    (h : o = .div -> y ≠ 0#32 ∧ x.sdiv y = x / y) : o.rvValue x y = o.threaded x y := by
  cases o with
  | add => rfl
  | sub => rfl
  | mul => rfl
  | div =>
      obtain ⟨hy, hquotient⟩ := h rfl
      show Rv32.divide x y = divOrZero x y
      unfold Rv32.divide divOrZero
      rw [if_neg hy, if_neg hy, hquotient]

theorem rvChain_eq (steps : List (Word × ArithOp)) (x : Word) (xs : List Word)
    (hlits : forall b, b ∈ literals (chainSteps steps) -> signedOk b = true)
    (hdivs : divisionsAgree (chainSteps steps) (x :: xs) = true) :
    nativeChain rvLoaded (fun o => some o.rvValue) x steps = some (threadedChain x steps) := by
  induction steps generalizing x with
  | nil => rfl
  | cons step steps ih =>
      obtain ⟨b, o⟩ := step
      change ((decide (o = .div -> b ≠ 0#32 ∧ x.sdiv b = x / b)) &&
        divisionsAgree (chainSteps steps) (o.threaded x b :: xs)) = true at hdivs
      rw [Bool.and_eq_true, decide_eq_true_eq] at hdivs
      have hb : rvLoaded b = b := (rvLoaded_eq_iff b).mpr (hlits b List.mem_cons_self)
      rw [nativeChain, threadedChain]
      dsimp only
      rw [hb, rvValue_eq_threaded hdivs.left]
      exact ih _ (fun b' hb' => hlits b' (List.mem_cons_of_mem _ hb')) hdivs.right

/-!
## Both targets
-/

def NativeExactOn (target : Target) (prims : Prims) (items : List RpnItem)
    (program : StreamProgram) : Prop :=
  match target with
  | .arm => NativeExact thumb2Backend prims items program
  | .riscv32 => NativeExact riscv32Backend prims items program

section Targets

variable {prims : Prims} {items : List RpnItem} {program : StreamProgram}
  (hvalid : ValidRpn items)
  (hwords : program.stream.words = rpnWords prims items ++ [prims.wordOf .halt])
  (hyields : program.yieldsValue = true)

include hwords in
theorem peakDepth_le_of_exact {target : Target} (h : NativeExactOn target prims items program) :
    peakDepth 0 items ≤ 2 := by
  cases target with
  | arm => exact h.peakDepth_le thumb2_emitterFits hwords
  | riscv32 => exact h.peakDepth_le rv32_emitterFits hwords

include hvalid hwords hyields in
theorem thumb2_exact (hpeak : peakDepth 0 items ≤ 2) :
    NativeExactOn .arm prims items program := by
  obtain ⟨a, steps, rfl⟩ := exists_chain hvalid hpeak
  exact nativeExact_chain thumb2_laws thumb2_arithLaws (by decide) hvalid hpeak hwords hyields
    (fun v hv => thumbChain_eq steps a v hv)

include hvalid hwords hyields in
theorem rv32_exact (hpeak : peakDepth 0 items ≤ 2)
    (hlits : forall v, v ∈ literals items -> signedOk v = true)
    (hdivs : divisionsAgree items [] = true) : NativeExactOn .riscv32 prims items program := by
  obtain ⟨a, steps, rfl⟩ := exists_chain hvalid hpeak
  refine nativeExact_chain rv32_laws rv32_arithLaws (by decide) hvalid hpeak hwords hyields ?_
  intro v hv
  have ha : rvLoaded a = a := (rvLoaded_eq_iff a).mpr (hlits a List.mem_cons_self)
  rw [ha, rvChain_eq steps a [] (fun b hb => hlits b (List.mem_cons_of_mem _ hb)) hdivs] at hv
  cases hv
  rfl

include hvalid hwords hyields in
/-- Native code is right on ARM exactly for the expressions that never hold more than two
values.  On RISC-V it is wrong for all others too, and right for these if every literal fits
an ADDI and the signs do not matter to the divisions. -/
theorem expression_nativeExact :
    (NativeExactOn .arm prims items program ↔ peakDepth 0 items ≤ 2) ∧
      (NativeExactOn .riscv32 prims items program -> peakDepth 0 items ≤ 2) ∧
      (peakDepth 0 items ≤ 2 -> (forall v, v ∈ literals items -> signedOk v = true) ->
        divisionsAgree items [] = true -> NativeExactOn .riscv32 prims items program) :=
  ⟨⟨peakDepth_le_of_exact hwords, thumb2_exact hvalid hwords hyields⟩,
    peakDepth_le_of_exact hwords, rv32_exact hvalid hwords hyields⟩

end Targets

/-- The program of an expression that fits a stream. -/
def rpnProgram (prims : Prims) (items : List RpnItem)
    (h : (rpnWords prims items ++ [prims.wordOf .halt]).length ≤ maxStreamWords) :
    StreamProgram :=
  ⟨⟨rpnWords prims items ++ [prims.wordOf .halt], h⟩, true⟩

/-- `7 - 3`, times 2. -/
def twoDeep : List RpnItem := [.lit 7#32, .lit 3#32, .op .sub, .lit 2#32, .op .mul]

theorem nativeExactOn_twoDeep :
    NativeExactOn .arm .inFlash twoDeep (rpnProgram .inFlash twoDeep (by decide)) ∧
      NativeExactOn .riscv32 .inFlash twoDeep (rpnProgram .inFlash twoDeep (by decide)) := by
  have hvalid : depthAfter 0 twoDeep = some 1 := rfl
  have hwords : (rpnProgram .inFlash twoDeep (by decide)).stream.words =
      rpnWords .inFlash twoDeep ++ [Prims.inFlash.wordOf .halt] := rfl
  obtain ⟨harm, _, hrv⟩ := expression_nativeExact hvalid hwords rfl
  have hlits : (literals twoDeep).all signedOk = true := by decide
  exact ⟨harm.mpr (by decide), hrv (by decide) (List.all_eq_true.mp hlits) (by decide)⟩

/-- `1 + (2 + 3)`. -/
def threeDeep : List RpnItem :=
  [.lit 1#32, .lit 2#32, .lit 3#32, .op .add, .op .add]

/-- The 2 is overwritten by the 3, which is then added twice. -/
theorem not_nativeExactOn_threeDeep :
    ¬ NativeExactOn .arm .inFlash threeDeep (rpnProgram .inFlash threeDeep (by decide)) := by
  intro h
  have hwords : (rpnProgram .inFlash threeDeep (by decide)).stream.words =
      rpnWords .inFlash threeDeep ++ [Prims.inFlash.wordOf .halt] := rfl
  have hpeak := peakDepth_le_of_exact hwords h
  exact absurd hpeak (by decide)

end Execution
end HolyRust
