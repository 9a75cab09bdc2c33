import HolyRust.Foundation.Checked
import HolyRust.Compilation.State

/-!
# Compiler state in its arrays

The tables of the compiler as the source lays them out: fixed-size arrays, lengths in
fields of their own, and whatever older contents lie behind those lengths.  Indexing and
slicing may panic here.

`Shows` connects an array with what `Compilation.State` says it holds.
-/

namespace HolyRust
namespace Compilation

open Foundation

namespace Raw

structure NameBuf where
  len : Byte
  bytes : List Byte
deriving DecidableEq

namespace NameBuf

def fromSlice (name : List Byte) : Except Panic (Except ParseError NameBuf) :=
  if nameMax < name.length then
    .ok (.error .nameTooLong)
  else do
    let bytes <- Checked.copy (List.replicate nameMax 0#8) name.length name
    .ok (.ok ⟨BitVec.ofNat 8 name.length, bytes⟩)

/-- Borrow the name bytes. -/
def asSlice (nb : NameBuf) : Except Panic (List Byte) :=
  Checked.slice nb.bytes 0 nb.len.toNat

def eqBytes (nb : NameBuf) (other : List Byte) : Except Panic Bool := do
  let bytes <- nb.asSlice
  .ok (decide (bytes = other))

end NameBuf

structure Symbol where
  used : Bool
  nameLen : Byte
  name : List Byte
  value : Word

def emptySymbol : Symbol where
  used := false
  nameLen := 0#8
  name := List.replicate nameMax 0#8
  value := 0#32

structure Compiler where
  symbols : List Symbol
  fnNames : List NameBuf
  fnBodies : List (List Word)
  fnBodyLens : List Nat
  stream : List Word
  streamLen : Nat

namespace Compiler

def new : Compiler where
  symbols := List.replicate symbolSlots emptySymbol
  fnNames := List.replicate maxFns ⟨0#8, List.replicate nameMax 0#8⟩
  fnBodies := List.replicate maxFns (List.replicate fnBodyWords 0#32)
  fnBodyLens := List.replicate maxFns 0
  stream := List.replicate maxStreamWords 0#32
  streamLen := 0

/-!
## Symbol table
-/

/-- `usize::from(s.name_len) == name.len() && &s.name[..name.len()] == name`. -/
def named (s : Symbol) (name : List Byte) : Except Panic Bool :=
  if s.nameLen.toNat = name.length then do
    let held <- Checked.slice s.name 0 name.length
    .ok (decide (held = name))
  else
    .ok false

/-- `n` slots from `step` on. -/
def lookupLoop (c : Compiler) (name : List Byte) (start : Nat) :
    Nat -> Nat -> Except Panic (Option Word)
  | 0, _ => .ok none
  | n + 1, step => do
      let s <- Checked.get c.symbols ((start + step) % symbolSlots)
      if s.used = false then
        .ok none
      else
        let found <- named s name
        if found then .ok (some s.value) else lookupLoop c name start n (step + 1)

def lookupSymbol (c : Compiler) (name : List Byte) : Except Panic (Option Word) :=
  c.lookupLoop name (Compilation.Compiler.hash name) symbolSlots 0

/-- `!s.used || named(s, bytes)`. -/
def takes (s : Symbol) (bytes : List Byte) : Except Panic Bool :=
  if s.used = false then .ok true else named s bytes

/-- The assignments to the four fields of a slot. -/
def fill (s : Symbol) (bytes : List Byte) (value : Word) : Except Panic Symbol := do
  let name <- Checked.copy s.name bytes.length bytes
  .ok { used := true, nameLen := BitVec.ofNat 8 bytes.length, name := name, value := value }

def insertLoop (c : Compiler) (bytes : List Byte) (value : Word) (start : Nat) :
    Nat -> Nat -> Except Panic (Except ParseError Unit × Compiler)
  | 0, _ => .ok (.error .symbolTableFull, c)
  | n + 1, step => do
      let i := (start + step) % symbolSlots
      let s <- Checked.get c.symbols i
      let here <- takes s bytes
      if here then do
        let s <- fill s bytes value
        let symbols <- Checked.put c.symbols i s
        .ok (.ok (), { c with symbols := symbols })
      else
        insertLoop c bytes value start n (step + 1)

def insertSymbol (c : Compiler) (name : NameBuf) (value : Word) :
    Except Panic (Except ParseError Unit × Compiler) := do
  let bytes <- name.asSlice
  c.insertLoop bytes value (Compilation.Compiler.hash bytes) symbolSlots 0

/-!
## Functions
-/

def fnAllocated (c : Compiler) (i : Nat) : Except Panic Bool := do
  let nb <- Checked.get c.fnNames i
  .ok (decide (0 < nb.len.toNat))

def findFn (c : Compiler) (name : List Byte) : Except Panic (Option Nat) :=
  (List.range maxFns).findM? fun i => do
    let allocated <- c.fnAllocated i
    if allocated then do
      let nb <- Checked.get c.fnNames i
      nb.eqBytes name
    else
      .ok false

def allocFnSlot (c : Compiler) (name : NameBuf) : Except Panic (Except ParseError Nat) := do
  let bytes <- name.asSlice
  let live <- c.findFn bytes
  if live.isSome then
    .ok (.error .duplicateFn)
  else do
    let free <- (List.range maxFns).findM? fun i => do
      let nb <- Checked.get c.fnNames i
      .ok (decide (nb.len.toNat = 0))
    match free with
    | some i => .ok (.ok i)
    | none => .ok (.error .fnTableFull)

/-- The assignments to `fn_names`, `fn_body_lens` and `fn_bodies`. -/
def setFn (c : Compiler) (i : Nat) (name : NameBuf) (words : List Word) :
    Except Panic Compiler := do
  let fnNames <- Checked.put c.fnNames i name
  let fnBodyLens <- Checked.put c.fnBodyLens i words.length
  let body <- Checked.get c.fnBodies i
  let body <- Checked.copy body words.length words
  let fnBodies <- Checked.put c.fnBodies i body
  .ok { c with fnNames := fnNames, fnBodyLens := fnBodyLens, fnBodies := fnBodies }

def importFn (c : Compiler) (name : List Byte) (words : List Word) :
    Except Panic (Except ParseError Unit × Compiler) :=
  if nameMax < name.length then
    .ok (.error .nameTooLong, c)
  else if fnBodyWords < words.length then
    .ok (.error .streamFull, c)
  else do
    let nb <- NameBuf.fromSlice name
    match nb with
    | .error e => .ok (.error e, c)
    | .ok nb => do
        let slot <- c.allocFnSlot nb
        match slot with
        | .error e => .ok (.error e, c)
        | .ok i => do
            let c <- c.setFn i nb words
            .ok (.ok (), c)

end Compiler

/-!
## What the arrays hold
-/

end Raw

/-- The buffer that `from_slice` makes of a name. -/
def NameBuf.raw (nb : NameBuf) : Raw.NameBuf where
  len := BitVec.ofNat 8 nb.bytes.length
  bytes := nb.bytes ++ List.replicate (nameMax - nb.bytes.length) 0#8

theorem NameBuf.len_raw (nb : NameBuf) : nb.raw.len.toNat = nb.bytes.length := by
  have hle : nb.bytes.length ≤ 16 := nb.length_le
  show (BitVec.ofNat 8 nb.bytes.length).toNat = nb.bytes.length
  rw [BitVec.toNat_ofNat]
  lia

theorem NameBuf.length_raw (nb : NameBuf) : nb.raw.bytes.length = nameMax := by
  have hle := nb.length_le
  simp only [NameBuf.raw, List.length_append, List.length_replicate]
  lia

theorem NameBuf.asSlice_raw (nb : NameBuf) : nb.raw.asSlice = .ok nb.bytes := by
  have hle := nb.length_le
  unfold Raw.NameBuf.asSlice
  rw [nb.len_raw, Checked.slice_of_le (Nat.zero_le _) (by rw [nb.length_raw]; exact hle)]
  rw [List.drop_zero]
  exact congrArg Except.ok List.take_left

/-- What `from_slice` returns: the name in its buffer, or its error. -/
theorem fromSlice_raw (name : List Byte) :
    Raw.NameBuf.fromSlice name = .ok ((NameBuf.fromSlice name).map NameBuf.raw) := by
  unfold Raw.NameBuf.fromSlice NameBuf.fromSlice
  by_cases hle : name.length ≤ nameMax
  · rw [if_neg (Nat.not_lt.mpr hle), dif_pos hle, Checked.copy_of_le (by simpa using hle)]
    rw [List.drop_replicate]
    rfl
  · rw [if_pos (Nat.lt_of_not_le hle), dif_neg hle]
    rfl

namespace Raw

/-- The slot holds the symbol, or is free. -/
structure Symbol.Shows (s : Symbol) (t : Option Compilation.Symbol) : Prop where
  used : s.used = t.isSome
  length_name : s.name.length = nameMax
  nameLen : forall sym, t = some sym -> s.nameLen.toNat = sym.name.bytes.length
  name : forall sym, t = some sym -> s.name.take sym.name.bytes.length = sym.name.bytes
  value : forall sym, t = some sym -> s.value = sym.value

namespace Compiler

/-- The symbol array holds the table. -/
def ShowsSymbols (r : Compiler) (c : Compilation.Compiler) : Prop :=
  forall i : Fin symbolSlots, exists s, r.symbols[i.val]? = some s ∧ s.Shows (c.symbols i)

theorem shows_emptySymbol : emptySymbol.Shows none where
  used := rfl
  length_name := List.length_replicate
  nameLen := fun _ hsym => by cases hsym
  name := fun _ hsym => by cases hsym
  value := fun _ hsym => by cases hsym

theorem showsSymbols_new : Compiler.new.ShowsSymbols .new := by
  intro i
  exact ⟨emptySymbol, List.getElem?_replicate_of_lt i.isLt, shows_emptySymbol⟩

theorem named_of_shows {s : Symbol} {sym : Compilation.Symbol} (h : s.Shows (some sym))
    (name : List Byte) : named s name = .ok (decide (sym.name.bytes = name)) := by
  unfold named
  rw [h.nameLen sym rfl]
  by_cases hlength : sym.name.bytes.length = name.length
  · have hle : name.length ≤ s.name.length := by
      rw [h.length_name, ← hlength]
      exact sym.name.length_le
    rw [if_pos hlength, Checked.slice_of_le (Nat.zero_le _) hle, List.drop_zero, ← hlength,
      h.name sym rfl]
    rfl
  · have hne : sym.name.bytes ≠ name := fun heq => hlength (congrArg List.length heq)
    rw [if_neg hlength, decide_eq_false hne]

/-- The probe reads the slots that the table reads, and does not panic. -/
theorem lookupLoop_shows {r : Compiler} {c : Compilation.Compiler} (h : r.ShowsSymbols c)
    (name : List Byte) (start n step : Nat) :
    r.lookupLoop name start n step = .ok (c.lookupLoop name start n step) := by
  induction n generalizing step with
  | zero => rfl
  | succ n ih =>
      obtain ⟨s, hget, hs⟩ := h (Compilation.Compiler.probe start step)
      have hread : Checked.get r.symbols ((start + step) % symbolSlots) = .ok s :=
        Checked.get_of_getElem? hget
      rw [lookupLoop, Compilation.Compiler.lookupLoop, hread]
      show (if s.used = false then _ else _ : Except Panic (Option Word)) = _
      cases hslot : c.symbols (Compilation.Compiler.probe start step) with
      | none =>
          rw [hslot] at hs
          have hfree : s.used = false := hs.used
          rw [if_pos hfree]
      | some sym =>
          rw [hslot] at hs
          have hused : s.used = true := hs.used
          rw [if_neg (by rw [hused]; decide), named_of_shows hs name]
          show (if decide (sym.name.bytes = name) = true then _ else _ : Except Panic _) = _
          dsimp only
          by_cases hname : sym.name.bytes = name
          · rw [if_pos (decide_eq_true hname), if_pos hname, hs.value sym rfl]
          · rw [if_neg (by rw [decide_eq_false hname]; decide), if_neg hname]
            exact ih (step + 1)

theorem lookupSymbol_shows {r : Compiler} {c : Compilation.Compiler} (h : r.ShowsSymbols c)
    (name : List Byte) : r.lookupSymbol name = .ok (c.lookupSymbol name) :=
  lookupLoop_shows h name _ _ _

theorem takes_of_shows {s : Symbol} {t : Option Compilation.Symbol} (h : s.Shows t)
    (name : List Byte) :
    takes s name = .ok (decide (forall sym, t = some sym -> sym.name.bytes = name)) := by
  unfold takes
  cases t with
  | none =>
      have hfree : s.used = false := h.used
      rw [if_pos hfree, decide_eq_true]
      intro sym hsym
      cases hsym
  | some sym =>
      have hused : s.used = true := h.used
      rw [if_neg (by rw [hused]; decide), named_of_shows h name]
      congr 1
      rw [decide_eq_decide]
      constructor
      · rintro hname sym' hsym
        cases hsym
        exact hname
      · intro hall
        exact hall sym rfl

/-- A slot is written as a whole; bytes behind the name may be older. -/
theorem fill_of_shows {s : Symbol} {t : Option Compilation.Symbol} (h : s.Shows t)
    (name : Compilation.NameBuf) (value : Word) :
    exists s', fill s name.bytes value = .ok s' ∧ s'.Shows (some ⟨name, value⟩) := by
  have hle : name.bytes.length ≤ s.name.length := by
    rw [h.length_name]
    exact name.length_le
  unfold fill
  rw [Checked.copy_of_le hle]
  refine ⟨_, rfl, ?_⟩
  constructor
  · rfl
  · rw [List.length_append, List.length_drop, ← h.length_name]
    lia
  · intro sym hsym
    cases hsym
    exact name.len_raw
  · intro sym hsym
    cases hsym
    exact List.take_left
  · intro sym hsym
    cases hsym
    rfl

theorem showsSymbols_set {r : Compiler} {c : Compilation.Compiler} (h : r.ShowsSymbols c)
    {i : Fin symbolSlots} {s : Symbol} {sym : Compilation.Symbol} (hs : s.Shows (some sym)) :
    ({ r with symbols := r.symbols.set i.val s } : Compiler).ShowsSymbols
      { c with symbols := fun j => if j = i then some sym else c.symbols j } := by
  intro j
  by_cases hj : j = i
  · obtain ⟨old, hold, _⟩ := h i
    refine ⟨s, ?_, ?_⟩
    · rw [hj]
      exact List.getElem?_set_self (List.getElem?_eq_some_iff.mp hold).choose
    · show s.Shows (if j = i then some sym else c.symbols j)
      rw [if_pos hj]
      exact hs
  · obtain ⟨old, hold, hshows⟩ := h j
    have hne : i.val ≠ j.val := fun heq => hj (Fin.ext heq.symm)
    refine ⟨old, ?_, ?_⟩
    · rw [List.getElem?_set_ne hne]
      exact hold
    · show old.Shows (if j = i then some sym else c.symbols j)
      rw [if_neg hj]
      exact hshows

/-- A slot that is free or holds the name is filled. -/
theorem insertLoop_fill {r : Compiler} {c : Compilation.Compiler} (h : r.ShowsSymbols c)
    (name : Compilation.NameBuf) (value : Word) {start step : Nat} (n : Nat)
    (hall : forall sym, c.symbols (Compilation.Compiler.probe start step) = some sym ->
      sym.name.bytes = name.bytes) :
    exists symbols, r.insertLoop name.bytes value start (n + 1) step =
        .ok (.ok (), { r with symbols := symbols }) ∧
      ({ r with symbols := symbols } : Compiler).ShowsSymbols { c with
        symbols := fun i => if i = Compilation.Compiler.probe start step then
          some ⟨name, value⟩ else c.symbols i } := by
  obtain ⟨s, hget, hs⟩ := h (Compilation.Compiler.probe start step)
  have hread : Checked.get r.symbols ((start + step) % symbolSlots) = .ok s :=
    Checked.get_of_getElem? hget
  have hlt : (start + step) % symbolSlots < r.symbols.length :=
    (List.getElem?_eq_some_iff.mp hget).choose
  obtain ⟨s', hfill, hs'⟩ := fill_of_shows hs name value
  refine ⟨_, ?_, showsSymbols_set h hs'⟩
  rw [insertLoop, hread]
  show (takes s name.bytes >>= _) = _
  rw [takes_of_shows hs, decide_eq_true hall]
  show (fill s name.bytes value >>= _) = _
  rw [hfill]
  show (Checked.put r.symbols ((start + step) % symbolSlots) s' >>= _) = _
  rw [Checked.put_of_lt hlt]
  rfl

/-- A slot that holds another name is passed. -/
theorem insertLoop_pass {r : Compiler} {c : Compilation.Compiler} (h : r.ShowsSymbols c)
    (name : List Byte) (value : Word) {start step : Nat} (n : Nat) {sym : Compilation.Symbol}
    (hslot : c.symbols (Compilation.Compiler.probe start step) = some sym)
    (hname : sym.name.bytes ≠ name) :
    r.insertLoop name value start (n + 1) step = r.insertLoop name value start n (step + 1) := by
  obtain ⟨s, hget, hs⟩ := h (Compilation.Compiler.probe start step)
  have hread : Checked.get r.symbols ((start + step) % symbolSlots) = .ok s :=
    Checked.get_of_getElem? hget
  rw [insertLoop, hread]
  show (takes s name >>= _) = _
  rw [takes_of_shows hs, hslot, decide_eq_false]
  · rfl
  · intro hall
    exact hname (hall sym rfl)

/-- The insertion writes the slot that the table writes, or nothing. -/
theorem insertLoop_shows {r : Compiler} {c : Compilation.Compiler} (h : r.ShowsSymbols c)
    (name : Compilation.NameBuf) (value : Word) (start n step : Nat) :
    match c.insertLoop name value start n step with
    | .ok c' => exists symbols,
        r.insertLoop name.bytes value start n step = .ok (.ok (), { r with symbols := symbols }) ∧
          ({ r with symbols := symbols } : Compiler).ShowsSymbols c'
    | .error e => r.insertLoop name.bytes value start n step = .ok (.error e, r) := by
  induction n generalizing step with
  | zero => rfl
  | succ n ih =>
      rw [Compilation.Compiler.insertLoop]
      cases hslot : c.symbols (Compilation.Compiler.probe start step) with
      | none =>
          refine insertLoop_fill h name value n ?_
          intro sym hsym
          rw [hslot] at hsym
          cases hsym
      | some sym =>
          dsimp only
          by_cases hname : sym.name.bytes = name.bytes
          · rw [if_pos hname]
            refine insertLoop_fill h name value n ?_
            intro sym' hsym
            rw [hslot] at hsym
            cases hsym
            exact hname
          · rw [if_neg hname, insertLoop_pass h name.bytes value n hslot hname]
            exact ih (step + 1)

theorem insertSymbol_shows {r : Compiler} {c : Compilation.Compiler} (h : r.ShowsSymbols c)
    (name : Compilation.NameBuf) (value : Word) :
    match c.insertSymbol name value with
    | .ok c' => exists symbols,
        r.insertSymbol name.raw value = .ok (.ok (), { r with symbols := symbols }) ∧
          ({ r with symbols := symbols } : Compiler).ShowsSymbols c'
    | .error e => r.insertSymbol name.raw value = .ok (.error e, r) := by
  have hbytes : r.insertSymbol name.raw value =
      r.insertLoop name.bytes value (Compilation.Compiler.hash name.bytes) symbolSlots 0 := by
    unfold insertSymbol
    rw [name.asSlice_raw]
    rfl
  rw [hbytes]
  exact insertLoop_shows h name value _ _ _

/-!
## Functions and the stream
-/

/-- The arrays hold the tables and the stream. -/
structure Shows (r : Compiler) (c : Compilation.Compiler) : Prop where
  symbols : r.ShowsSymbols c
  fnNames : forall i : Fin maxFns, r.fnNames[i.val]? = some (c.fns i).name.raw
  fnBodyLens : forall i : Fin maxFns, r.fnBodyLens[i.val]? = some (c.fns i).body.length
  fnBodies : forall i : Fin maxFns, exists body, r.fnBodies[i.val]? = some body ∧
    body.length = fnBodyWords ∧ body.take (c.fns i).body.length = (c.fns i).body
  length_stream : r.stream.length = maxStreamWords
  streamLen : r.streamLen = c.stream.words.length
  stream : r.stream.take c.stream.words.length = c.stream.words

theorem findM?_map_val {n : Nat} {p : Nat -> Except Panic Bool} {q : Fin n -> Bool}
    (h : forall i : Fin n, p i.val = .ok (q i)) (l : List (Fin n)) :
    (l.map Fin.val).findM? p = .ok ((l.find? q).map Fin.val) := by
  induction l with
  | nil => rfl
  | cons i l ih =>
      rw [List.map_cons, List.findM?, h i, List.find?_cons]
      cases q i with
      | true => rfl
      | false => exact ih

/-- The first index that satisfies a predicate. -/
theorem findM?_range {n : Nat} {p : Nat -> Except Panic Bool} {q : Fin n -> Bool}
    (h : forall i : Fin n, p i.val = .ok (q i)) :
    (List.range n).findM? p = .ok (((List.finRange n).find? q).map Fin.val) := by
  rw [← List.map_coe_finRange_eq_range]
  exact findM?_map_val h _

theorem fnAllocated_shows {r : Compiler} {c : Compilation.Compiler} (h : r.Shows c)
    (i : Fin maxFns) : r.fnAllocated i.val = .ok (c.fnAllocated i) := by
  unfold fnAllocated
  rw [Checked.get_of_getElem? (h.fnNames i)]
  show Except.ok (decide (0 < (c.fns i).name.raw.len.toNat)) = _
  rw [(c.fns i).name.len_raw]
  rfl

theorem findFn_shows {r : Compiler} {c : Compilation.Compiler} (h : r.Shows c)
    (name : List Byte) : r.findFn name = .ok ((c.findFn name).map Fin.val) := by
  unfold findFn Compilation.Compiler.findFn
  refine findM?_range fun i => ?_
  rw [fnAllocated_shows h i]
  show (if c.fnAllocated i = true then _ else _ : Except Panic Bool) = _
  cases c.fnAllocated i with
  | false => rfl
  | true =>
      rw [if_pos rfl, Checked.get_of_getElem? (h.fnNames i)]
      show (c.fns i).name.raw.eqBytes name = _
      unfold NameBuf.eqBytes
      rw [(c.fns i).name.asSlice_raw, Bool.true_and]
      rfl

theorem allocFnSlot_shows {r : Compiler} {c : Compilation.Compiler} (h : r.Shows c)
    (name : Compilation.NameBuf) :
    r.allocFnSlot name.raw = .ok ((c.allocFnSlot name).map Fin.val) := by
  have hfree : ((List.range maxFns).findM? fun i => do
      let nb <- Checked.get r.fnNames i
      .ok (decide (nb.len.toNat = 0))) =
      .ok (((List.finRange maxFns).find? fun i =>
        decide ((c.fns i).name.bytes.length = 0)).map Fin.val) := by
    refine findM?_range fun i => ?_
    rw [Checked.get_of_getElem? (h.fnNames i)]
    show Except.ok (decide ((c.fns i).name.raw.len.toNat = 0)) = _
    rw [(c.fns i).name.len_raw]
  unfold allocFnSlot Compilation.Compiler.allocFnSlot
  rw [name.asSlice_raw]
  show (r.findFn name.bytes >>= _) = _
  rw [findFn_shows h]
  show (if ((c.findFn name.bytes).map Fin.val).isSome = true then _ else _ : Except Panic _) = _
  rw [Option.isSome_map]
  cases (c.findFn name.bytes).isSome with
  | true => rfl
  | false =>
      rw [if_neg (by decide), if_neg (by decide), hfree]
      cases (List.finRange maxFns).find? fun i =>
          decide ((c.fns i).name.bytes.length = 0) with
      | none => rfl
      | some i => rfl

theorem getElem?_set_fin {n : Nat} {xs : List α} {f : Fin n -> α}
    (h : forall j : Fin n, xs[j.val]? = some (f j)) (i : Fin n) (a : α) (j : Fin n) :
    (xs.set i.val a)[j.val]? = some (if j = i then a else f j) := by
  by_cases hj : j = i
  · rw [hj, if_pos rfl]
    exact List.getElem?_set_self (List.getElem?_eq_some_iff.mp (h i)).choose
  · rw [if_neg hj, List.getElem?_set_ne fun heq => hj (Fin.ext heq.symm)]
    exact h j

/-- A function is stored with older words behind its body. -/
theorem setFn_shows {r : Compiler} {c : Compilation.Compiler} (h : r.Shows c) (i : Fin maxFns)
    (name : Compilation.NameBuf) {words : List Word} (hlength : words.length ≤ fnBodyWords) :
    exists r', r.setFn i.val name.raw words = .ok r' ∧
      r'.Shows (c.setFn i ⟨name, words, hlength⟩) := by
  obtain ⟨body, hbody, hfull, _⟩ := h.fnBodies i
  have hname : i.val < r.fnNames.length := (List.getElem?_eq_some_iff.mp (h.fnNames i)).choose
  have hlen : i.val < r.fnBodyLens.length :=
    (List.getElem?_eq_some_iff.mp (h.fnBodyLens i)).choose
  have hlt : i.val < r.fnBodies.length := (List.getElem?_eq_some_iff.mp hbody).choose
  refine ⟨{ r with
    fnNames := r.fnNames.set i.val name.raw
    fnBodyLens := r.fnBodyLens.set i.val words.length
    fnBodies := r.fnBodies.set i.val (words ++ body.drop words.length) }, ?_, ?_⟩
  · unfold setFn
    rw [Checked.put_of_lt hname]
    show (Checked.put r.fnBodyLens i.val words.length >>= _) = _
    rw [Checked.put_of_lt hlen]
    show (Checked.get r.fnBodies i.val >>= _) = _
    rw [Checked.get_of_getElem? hbody]
    show (Checked.copy body words.length words >>= _) = _
    rw [Checked.copy_of_le (by rw [hfull]; exact hlength)]
    show (Checked.put r.fnBodies i.val _ >>= _) = _
    rw [Checked.put_of_lt hlt]
    rfl
  · constructor
    · exact h.symbols
    · intro j
      rw [getElem?_set_fin h.fnNames i name.raw j]
      simp only [Compilation.Compiler.setFn]
      by_cases hj : j = i
      · rw [if_pos hj, if_pos hj]
      · rw [if_neg hj, if_neg hj]
    · intro j
      rw [getElem?_set_fin h.fnBodyLens i words.length j]
      simp only [Compilation.Compiler.setFn]
      by_cases hj : j = i
      · rw [if_pos hj, if_pos hj]
      · rw [if_neg hj, if_neg hj]
    · intro j
      simp only [Compilation.Compiler.setFn]
      by_cases hj : j = i
      · rw [hj, if_pos rfl]
        refine ⟨_, List.getElem?_set_self hlt, ?_, List.take_left⟩
        rw [List.length_append, List.length_drop, hfull]
        lia
      · rw [if_neg hj, List.getElem?_set_ne fun heq => hj (Fin.ext heq.symm)]
        exact h.fnBodies j
    · exact h.length_stream
    · exact h.streamLen
    · exact h.stream

end Compiler

end Raw
end Compilation
end HolyRust
