import HolyRust.Foundation.Checked
import HolyRust.Platform

/-!
# PCIe enumeration

`enumerate_ecam` walks buses, devices and functions in three nested loops and copies
header words of the functions it finds into a table of the caller.  The functions that
were looked at and those that were entered in the table are ghosts.
-/

namespace HolyRust
namespace Drivers

open Foundation

/-!
## Configuration space
-/

/-- Type 00h device header. -/
structure PcieHeader where
  vendorDevice : Word
  commandStatus : Word
  classRevision : Word
  bistHeaderLatencyCache : Word
  bar0 : Word
  bar1 : Word
  bar2 : Word
  bar3 : Word
  bar4 : Word
  bar5 : Word
deriving DecidableEq

structure PcieFunction where
  bus : Nat
  dev : Nat
  func : Nat
deriving DecidableEq

/-- Increasing bus, device and function numbers. -/
def PcieFunction.Before (f g : PcieFunction) : Prop :=
  f.bus < g.bus ∨ (f.bus = g.bus ∧ (f.dev < g.dev ∨ (f.dev = g.dev ∧ f.func < g.func)))

def ecamAddr (base bus dev func reg : Nat) : Nat :=
  base + (bus <<< 20) + (dev <<< 15) + (func <<< 12) + reg

/-- A configuration space of 256 buses in the address space. -/
structure Ecam where
  base : Nat
  fits : base + 2 ^ 28 ≤ 2 ^ 32
  mem : Mem

namespace Ecam

def peekU32 (e : Ecam) (addr : Nat) : Word := e.mem.read32 (BitVec.ofNat 32 addr)

/-- The configuration word of a function at `reg`. -/
def configWord (e : Ecam) (f : PcieFunction) (reg : Nat) : Word :=
  e.peekU32 (ecamAddr e.base f.bus f.dev f.func 0 + reg)

/-- The header that the configuration words of a function make up. -/
def header (e : Ecam) (f : PcieFunction) : PcieHeader where
  vendorDevice := e.configWord f 0x00
  commandStatus := e.configWord f 0x04
  classRevision := e.configWord f 0x08
  bistHeaderLatencyCache := e.configWord f 0x0C
  bar0 := e.configWord f 0x10
  bar1 := e.configWord f 0x14
  bar2 := e.configWord f 0x18
  bar3 := e.configWord f 0x1C
  bar4 := e.configWord f 0x20
  bar5 := e.configWord f 0x24

/-- The vendor id is neither all ones nor zero. -/
def Present (e : Ecam) (f : PcieFunction) : Prop :=
  (e.configWord f 0).setWidth 16 ≠ 0xFFFF#16 ∧ (e.configWord f 0).setWidth 16 ≠ 0#16

instance (e : Ecam) (f : PcieFunction) : Decidable (e.Present f) :=
  inferInstanceAs (Decidable (_ ∧ _))

def isPresent (e : Ecam) (f : PcieFunction) : Bool := decide (e.Present f)

/-- Bit 7 of the header type, the byte at `0x0E` of function 0. -/
def multiFunction (e : Ecam) (bus dev : Nat) : Bool :=
  (e.mem (BitVec.ofNat 32 (ecamAddr e.base bus dev 0 0 + 0x0E))).getLsbD 7

end Ecam

/-!
## The sweep
-/

structure Sweep where
  found : Nat
  table : List PcieHeader
  visited : List PcieFunction
  reported : List PcieFunction

/-- The header words that are copied into a row. -/
def copyHeader (e : Ecam) (f : PcieFunction) (row : PcieHeader) : PcieHeader :=
  { row with
    vendorDevice := e.configWord f 0x00
    commandStatus := e.configWord f 0x04
    classRevision := e.configWord f 0x08
    bar0 := e.configWord f 0x10 }

/-- Copy into the next row, if there is one. -/
def report (e : Ecam) (f : PcieFunction) (s : Sweep) : Except Panic Sweep :=
  if s.found < s.table.length then do
    let row <- Checked.get s.table s.found
    let table <- Checked.put s.table s.found (copyHeader e f row)
    pure { s with found := s.found + 1, table := table, reported := s.reported ++ [f] }
  else
    pure s

/-- The header type test at function 0, which ends the device. -/
def endsDevice (e : Ecam) (f : PcieFunction) : Bool :=
  decide (f.func = 0) && decide (e.configWord f 0x0E &&& 0xFF#32 &&& 0x80#32 = 0#32)

def funcLoop (e : Ecam) (bus dev : Nat) : List Nat -> Sweep -> Except Panic Sweep
  | [], s => pure s
  | func :: rest, s => do
      let f : PcieFunction := ⟨bus, dev, func⟩
      let vendor := e.configWord f 0 &&& 0xFFFF#32
      let s := { s with visited := s.visited ++ [f] }
      if vendor = 0xFFFF#32 ∨ vendor = 0x0000#32 then
        if endsDevice e f then pure s else funcLoop e bus dev rest s
      else do
        let s <- report e f s
        if endsDevice e f then pure s else funcLoop e bus dev rest s

def devLoop (e : Ecam) (bus : Nat) : List Nat -> Sweep -> Except Panic Sweep
  | [], s => pure s
  | dev :: rest, s => do
      let s <- funcLoop e bus dev (List.range 8) s
      devLoop e bus rest s

def busLoop (e : Ecam) : List Nat -> Sweep -> Except Panic Sweep
  | [], s => pure s
  | bus :: rest, s => do
      let s <- devLoop e bus (List.range 32) s
      if s.table.length ≤ s.found then pure s
      -- quick exit without PCIe
      else if bus = 0 ∧ s.found = 0 then pure s
      else busLoop e rest s

/-- Enumerate the buses into the table `out`. -/
def enumerateEcam (e : Ecam) (out : List PcieHeader) : Except Panic Sweep :=
  busLoop e (List.range 256) { found := 0, table := out, visited := [], reported := [] }

/-!
## The tests of the loops
-/

theorem vendor_iff (w : Word) :
    (w &&& 0xFFFF#32 = 0xFFFF#32 ∨ w &&& 0xFFFF#32 = 0x0000#32) ↔
      ¬ (w.setWidth 16 ≠ 0xFFFF#16 ∧ w.setWidth 16 ≠ 0#16) := by
  have hmask : (w &&& 0xFFFF#32).toNat = (w.setWidth 16).toNat := by
    rw [BitVec.toNat_and, BitVec.toNat_setWidth]
    exact Nat.and_two_pow_sub_one_eq_mod _ 16
  rw [← BitVec.toNat_inj, ← BitVec.toNat_inj, hmask, Ne, Ne, ← BitVec.toNat_inj,
    ← BitVec.toNat_inj, Classical.not_and_iff_not_or_not, Classical.not_not, Classical.not_not]
  rfl

/-- The test looks at bit 7 of the lowest byte. -/
theorem headerTest_iff (w : Word) :
    w &&& 0xFF#32 &&& 0x80#32 = 0#32 ↔ (w.setWidth 8).getLsbD 7 = false := by
  have hbyte : forall x : Byte, x &&& 0x80#8 = 0#8 ↔ x.getLsbD 7 = false := by decide
  have hand : (w &&& 0xFF#32 &&& 0x80#32).toNat = (w.setWidth 8 &&& 0x80#8).toNat := by
    rw [BitVec.toNat_and, BitVec.toNat_and, BitVec.toNat_and, BitVec.toNat_setWidth,
      show (0xFF#32).toNat = 2 ^ 8 - 1 from rfl, Nat.and_two_pow_sub_one_eq_mod]
    rfl
  rw [← hbyte, ← BitVec.toNat_inj, hand, ← BitVec.toNat_inj]
  rfl

theorem endsDevice_zero (e : Ecam) (bus dev : Nat) :
    endsDevice e ⟨bus, dev, 0⟩ = !e.multiFunction bus dev := by
  have hbyte : (e.configWord ⟨bus, dev, 0⟩ 0x0E).setWidth 8 =
      e.mem (BitVec.ofNat 32 (ecamAddr e.base bus dev 0 0 + 0x0E)) :=
    Memory.read32_setWidth e.mem _
  have htest := headerTest_iff (e.configWord ⟨bus, dev, 0⟩ 0x0E)
  rw [hbyte] at htest
  show decide _ = _
  cases hmulti : e.multiFunction bus dev with
  | false => exact decide_eq_true (htest.mpr hmulti)
  | true =>
      refine decide_eq_false ?_
      intro hclear
      have hset : e.multiFunction bus dev = false := htest.mp hclear
      rw [hmulti] at hset
      cases hset

theorem endsDevice_succ (e : Ecam) (bus dev func : Nat) :
    endsDevice e ⟨bus, dev, func + 1⟩ = false := rfl

/-!
## One function
-/

/-- The first present functions among those visited are in the table; a row keeps what is
not copied into it, and the rows after them are untouched. -/
structure Swept (e : Ecam) (out : List PcieHeader) (s : Sweep) : Prop where
  count : s.found = s.reported.length
  length : s.table.length = out.length
  reported : s.reported = (s.visited.filter e.isPresent).take out.length
  rows : forall i : Nat, s.table[i]? =
    match s.reported[i]? with
    | some f => out[i]?.map (copyHeader e f)
    | none => out[i]?

/-- What the loop body does with a function. -/
def visit (e : Ecam) (f : PcieFunction) (s : Sweep) : Except Panic Sweep :=
  let s := { s with visited := s.visited ++ [f] }
  if e.Present f then report e f s else pure s

theorem funcLoop_cons (e : Ecam) (bus dev func : Nat) (rest : List Nat) (s : Sweep) :
    funcLoop e bus dev (func :: rest) s = (do
      let s <- visit e ⟨bus, dev, func⟩ s
      if endsDevice e ⟨bus, dev, func⟩ then pure s else funcLoop e bus dev rest s) := by
  have hvendor := vendor_iff (e.configWord ⟨bus, dev, func⟩ 0)
  simp only [funcLoop, visit]
  by_cases hpresent : e.Present ⟨bus, dev, func⟩
  · rw [if_neg (fun h => hvendor.mp h hpresent), if_pos hpresent]
  · rw [if_pos (hvendor.mpr hpresent), if_neg hpresent]
    rfl

theorem report_of_room {s : Sweep} (e : Ecam) (f : PcieFunction)
    (hroom : s.found < s.table.length) :
    report e f s = .ok { s with
      found := s.found + 1
      table := s.table.set s.found (copyHeader e f s.table[s.found])
      reported := s.reported ++ [f] } := by
  unfold report
  rw [if_pos hroom, Checked.get_of_getElem? (List.getElem?_eq_getElem hroom)]
  show (Checked.put s.table s.found _ >>= _) = _
  rw [Checked.put_of_lt hroom]
  rfl

/-- A function that is not entered leaves the table as it should be. -/
theorem swept_pass {e : Ecam} {out : List PcieHeader} {s : Sweep} (h : Swept e out s)
    {f : PcieFunction} (hpass : e.isPresent f = false ∨ s.table.length ≤ s.found) :
    Swept e out { s with visited := s.visited ++ [f] } := by
  refine ⟨h.count, h.length, ?_, h.rows⟩
  show s.reported = ((s.visited ++ [f]).filter _).take _
  rw [List.filter_append]
  rcases hpass with habsent | hfull
  · rw [List.filter_cons_of_neg (by rw [habsent]; decide), List.filter_nil, List.append_nil]
    exact h.reported
  · have hlength := congrArg List.length h.reported
    rw [List.length_take, ← h.count] at hlength
    rw [h.length] at hfull
    rw [List.take_append_of_le_length (by lia)]
    exact h.reported

/-- The next row takes the next function. -/
theorem swept_report {e : Ecam} {out : List PcieHeader} {s : Sweep} (h : Swept e out s)
    {f : PcieFunction} (hpresent : e.isPresent f = true) (hroom : s.found < s.table.length) :
    Swept e out
      { found := s.found + 1
        table := s.table.set s.found (copyHeader e f s.table[s.found])
        visited := s.visited ++ [f]
        reported := s.reported ++ [f] } := by
  have hlength := congrArg List.length h.reported
  rw [List.length_take, ← h.count] at hlength
  have hshort : (s.visited.filter e.isPresent).length = s.found := by
    rw [h.length] at hroom
    lia
  have hnew : s.reported[s.found]? = none :=
    List.getElem?_eq_none (Nat.le_of_eq h.count.symm)
  have hold : out[s.found]? = some s.table[s.found] := by
    have hrow := h.rows s.found
    rw [hnew, List.getElem?_eq_getElem hroom] at hrow
    exact hrow.symm
  constructor
  · show s.found + 1 = (s.reported ++ [f]).length
    rw [List.length_append, ← h.count, List.length_singleton]
  · show (s.table.set s.found _).length = _
    rw [List.length_set, h.length]
  · show s.reported ++ [f] = ((s.visited ++ [f]).filter _).take _
    rw [h.length] at hroom
    rw [List.filter_append, List.filter_cons_of_pos hpresent, List.filter_nil, h.reported,
      List.take_of_length_le (by lia), List.take_of_length_le (by
        rw [List.length_append, hshort]
        exact hroom)]
  · intro i
    show (s.table.set s.found _)[i]? = match (s.reported ++ [f])[i]? with
      | some f => out[i]?.map (copyHeader e f)
      | none => out[i]?
    rw [List.getElem?_set, List.getElem?_append, ← h.count]
    rcases Nat.lt_trichotomy i s.found with hlt | rfl | hgt
    · rw [if_neg (Nat.ne_of_gt hlt), if_pos hlt]
      exact h.rows i
    · rw [if_pos rfl, if_pos hroom, if_neg (Nat.lt_irrefl _), Nat.sub_self, hold]
      rfl
    · have hlater : s.reported[i]? = none :=
        List.getElem?_eq_none (by rw [← h.count]; exact Nat.le_of_lt hgt)
      have hrow := h.rows i
      rw [hlater] at hrow
      rw [if_neg (Nat.ne_of_lt hgt), if_neg (Nat.not_lt.mpr (Nat.le_of_lt hgt)), hrow,
        List.getElem?_eq_none (show [f].length ≤ i - s.found by rw [List.length_singleton]; lia)]

theorem visit_spec {e : Ecam} {out : List PcieHeader} {s : Sweep} (h : Swept e out s)
    (f : PcieFunction) :
    exists s', visit e f s = .ok s' ∧ Swept e out s' ∧ s'.visited = s.visited ++ [f] := by
  unfold visit
  dsimp only
  by_cases hpresent : e.Present f
  · rw [if_pos hpresent]
    by_cases hroom : s.found < s.table.length
    · have hreport := report_of_room (s := { s with visited := s.visited ++ [f] }) e f hroom
      exact ⟨_, hreport, swept_report h (decide_eq_true hpresent) hroom, rfl⟩
    · exact ⟨_, if_neg hroom, swept_pass h (Or.inr (Nat.le_of_not_lt hroom)), rfl⟩
  · rw [if_neg hpresent]
    exact ⟨_, rfl, swept_pass h (Or.inl (decide_eq_false hpresent)), rfl⟩

/-!
## Devices and buses
-/

/-- The functions of a device that are looked at. -/
def deviceFunctions (e : Ecam) (bus dev : Nat) : List PcieFunction :=
  (if e.multiFunction bus dev then List.range 8 else [0]).map fun func => ⟨bus, dev, func⟩

def busFunctions (e : Ecam) (bus : Nat) : List PcieFunction :=
  (List.range 32).flatMap (deviceFunctions e bus)

/-- The functions of the first `n` buses. -/
def functionsUpTo (e : Ecam) (n : Nat) : List PcieFunction :=
  (List.range n).flatMap (busFunctions e)

/-- From function 1 on nothing ends the device. -/
theorem funcLoop_rest {e : Ecam} {out : List PcieHeader} (bus dev : Nat) {funcs : List Nat}
    (hfuncs : 0 ∉ funcs) {s : Sweep} (h : Swept e out s) :
    exists s', funcLoop e bus dev funcs s = .ok s' ∧ Swept e out s' ∧
      s'.visited = s.visited ++ funcs.map fun func => ⟨bus, dev, func⟩ := by
  induction funcs generalizing s with
  | nil => exact ⟨s, rfl, h, (List.append_nil _).symm⟩
  | cons func rest ih =>
      obtain ⟨s1, hvisit, h1, hvisited⟩ := visit_spec h ⟨bus, dev, func⟩
      obtain ⟨s2, hrest, h2, hvisited2⟩ := ih (fun hmem => hfuncs (List.mem_cons_of_mem _ hmem)) h1
      refine ⟨s2, ?_, h2, ?_⟩
      · have hnot : endsDevice e ⟨bus, dev, func⟩ = false := by
          cases func with
          | zero => exact absurd List.mem_cons_self hfuncs
          | succ func => exact endsDevice_succ e bus dev func
        rw [funcLoop_cons, hvisit]
        show (if endsDevice e ⟨bus, dev, func⟩ = true then _ else _ : Except Panic Sweep) = _
        rw [hnot]
        exact hrest
      · rw [hvisited2, hvisited, List.map_cons, List.append_assoc]
        rfl

theorem funcLoop_spec {e : Ecam} {out : List PcieHeader} (bus dev : Nat) {s : Sweep}
    (h : Swept e out s) :
    exists s', funcLoop e bus dev (List.range 8) s = .ok s' ∧ Swept e out s' ∧
      s'.visited = s.visited ++ deviceFunctions e bus dev := by
  obtain ⟨s1, hvisit, h1, hvisited⟩ := visit_spec h ⟨bus, dev, 0⟩
  have hloop : funcLoop e bus dev (List.range 8) s =
      if e.multiFunction bus dev then funcLoop e bus dev [1, 2, 3, 4, 5, 6, 7] s1 else .ok s1 := by
    show funcLoop e bus dev (0 :: [1, 2, 3, 4, 5, 6, 7]) s = _
    rw [funcLoop_cons, hvisit]
    show (if endsDevice e ⟨bus, dev, 0⟩ = true then _ else _ : Except Panic Sweep) = _
    rw [endsDevice_zero]
    cases e.multiFunction bus dev <;> rfl
  unfold deviceFunctions
  rw [hloop]
  cases e.multiFunction bus dev with
  | false => exact ⟨s1, rfl, h1, hvisited⟩
  | true =>
      obtain ⟨s2, hrest, h2, hvisited2⟩ :=
        funcLoop_rest bus dev (show 0 ∉ [1, 2, 3, 4, 5, 6, 7] by decide) h1
      refine ⟨s2, hrest, h2, ?_⟩
      rw [hvisited2, hvisited, List.append_assoc]
      rfl

theorem devLoop_spec {e : Ecam} {out : List PcieHeader} (bus : Nat) (devs : List Nat) {s : Sweep}
    (h : Swept e out s) :
    exists s', devLoop e bus devs s = .ok s' ∧ Swept e out s' ∧
      s'.visited = s.visited ++ devs.flatMap (deviceFunctions e bus) := by
  induction devs generalizing s with
  | nil => exact ⟨s, rfl, h, (List.append_nil _).symm⟩
  | cons dev rest ih =>
      obtain ⟨s1, hfuncs, h1, hvisited⟩ := funcLoop_spec bus dev h
      obtain ⟨s2, hrest, h2, hvisited2⟩ := ih h1
      refine ⟨s2, ?_, h2, ?_⟩
      · rw [devLoop, hfuncs]
        exact hrest
      · rw [hvisited2, hvisited, List.flatMap_cons, List.append_assoc]

theorem functionsUpTo_succ (e : Ecam) (n : Nat) :
    functionsUpTo e (n + 1) = functionsUpTo e n ++ busFunctions e n := by
  unfold functionsUpTo
  rw [List.range_succ, List.flatMap_append, List.flatMap_singleton]

/-- The buses from `k` on; a sweep that stops early has filled the table or found nothing. -/
theorem busLoop_spec {e : Ecam} {out : List PcieHeader} (m k : Nat) {s : Sweep}
    (h : Swept e out s) (hvisited : s.visited = functionsUpTo e k) :
    exists s' n, busLoop e (List.range' k m) s = .ok s' ∧ Swept e out s' ∧
      s'.visited = functionsUpTo e n ∧ k + min m 1 ≤ n ∧ n ≤ k + m ∧
      (n < k + m -> out.length ≤ s'.found ∨ s'.found = 0) := by
  induction m generalizing k s with
  | zero => exact ⟨s, k, rfl, h, hvisited, by lia, by lia, fun hlt => by lia⟩
  | succ m ih =>
      obtain ⟨s1, hdevs, h1, hvisited1⟩ := devLoop_spec k (List.range 32) h
      have hone : s1.visited = functionsUpTo e (k + 1) := by
        rw [hvisited1, hvisited, functionsUpTo_succ]
        rfl
      rw [List.range'_succ, busLoop, hdevs]
      show exists s' n, (if s1.table.length ≤ s1.found then _ else _ : Except Panic Sweep) = _ ∧ _
      rw [h1.length]
      by_cases hfull : out.length ≤ s1.found
      · rw [if_pos hfull]
        exact ⟨s1, k + 1, rfl, h1, hone, by lia, by lia, fun _ => Or.inl hfull⟩
      · rw [if_neg hfull]
        by_cases hquick : k = 0 ∧ s1.found = 0
        · rw [if_pos hquick]
          exact ⟨s1, k + 1, rfl, h1, hone, by lia, by lia, fun _ => Or.inr hquick.right⟩
        · rw [if_neg hquick]
          obtain ⟨s2, n, hrest, h2, hn, hlo, hhi, hstop⟩ := ih (k + 1) h1 hone
          refine ⟨s2, n, hrest, h2, hn, by lia, by lia, ?_⟩
          intro hlt
          exact hstop (by lia)

/-- The sweep ends with bus 0 if nothing is found there. -/
theorem busLoop_quickExit {e : Ecam} {s s' : Sweep} {rest : List Nat}
    (hdevs : devLoop e 0 (List.range 32) s = .ok s') (hroom : 0 < s'.table.length)
    (hfound : s'.found = 0) : busLoop e (0 :: rest) s = .ok s' := by
  rw [busLoop, hdevs]
  show (if s'.table.length ≤ s'.found then _ else _ : Except Panic Sweep) = _
  rw [if_neg (by lia), if_pos ⟨rfl, hfound⟩]
  rfl

theorem swept_start (e : Ecam) (out : List PcieHeader) :
    Swept e out { found := 0, table := out, visited := [], reported := [] } where
  count := rfl
  length := rfl
  reported := List.take_nil.symm
  rows := fun _ => rfl

theorem enumerateEcam_spec (e : Ecam) (out : List PcieHeader) :
    exists s n, enumerateEcam e out = .ok s ∧ Swept e out s ∧
      s.visited = functionsUpTo e n ∧ 0 < n ∧ n ≤ 256 ∧
      (n < 256 -> out.length ≤ s.found ∨ s.found = 0) := by
  obtain ⟨s, n, hloop, hswept, hn, hlo, hhi, hstop⟩ :=
    busLoop_spec (k := 0) 256 (swept_start e out) rfl
  refine ⟨s, n, ?_, hswept, hn, by lia, by lia, fun hlt => hstop (by lia)⟩
  unfold enumerateEcam
  rw [List.range_eq_range']
  exact hloop

/-!
## The order of the sweep
-/

theorem mem_deviceFunctions {e : Ecam} {bus dev : Nat} {f : PcieFunction} :
    f ∈ deviceFunctions e bus dev ↔
      f.bus = bus ∧ f.dev = dev ∧ f.func < 8 ∧ (f.func = 0 ∨ e.multiFunction bus dev = true) := by
  obtain ⟨fbus, fdev, func⟩ := f
  unfold deviceFunctions
  rw [List.mem_map]
  simp only [PcieFunction.mk.injEq]
  cases e.multiFunction bus dev with
  | false =>
      constructor
      · rintro ⟨x, hx, rfl, rfl, rfl⟩
        have hzero : x = 0 := List.mem_singleton.mp hx
        exact ⟨rfl, rfl, by lia, Or.inl hzero⟩
      · rintro ⟨rfl, rfl, _, hzero | hfalse⟩
        · exact ⟨0, List.mem_singleton.mpr rfl, rfl, rfl, hzero.symm⟩
        · cases hfalse
  | true =>
      constructor
      · rintro ⟨x, hx, rfl, rfl, rfl⟩
        exact ⟨rfl, rfl, List.mem_range.mp hx, Or.inr rfl⟩
      · rintro ⟨rfl, rfl, hlt, _⟩
        exact ⟨func, List.mem_range.mpr hlt, rfl, rfl, rfl⟩

theorem mem_busFunctions {e : Ecam} {bus : Nat} {f : PcieFunction} :
    f ∈ busFunctions e bus ↔ f.bus = bus ∧ f.dev < 32 ∧ f.func < 8 ∧
      (f.func = 0 ∨ e.multiFunction bus f.dev = true) := by
  unfold busFunctions
  rw [List.mem_flatMap]
  constructor
  · rintro ⟨dev, hdev, hf⟩
    obtain ⟨hbus, rfl, hfunc, hskip⟩ := mem_deviceFunctions.mp hf
    exact ⟨hbus, List.mem_range.mp hdev, hfunc, hskip⟩
  · rintro ⟨hbus, hdev, hfunc, hskip⟩
    exact ⟨f.dev, List.mem_range.mpr hdev, mem_deviceFunctions.mpr ⟨hbus, rfl, hfunc, hskip⟩⟩

theorem mem_functionsUpTo {e : Ecam} {n : Nat} {f : PcieFunction} :
    f ∈ functionsUpTo e n ↔ f.bus < n ∧ f.dev < 32 ∧ f.func < 8 ∧
      (f.func = 0 ∨ e.multiFunction f.bus f.dev = true) := by
  unfold functionsUpTo
  rw [List.mem_flatMap]
  constructor
  · rintro ⟨bus, hbus, hf⟩
    obtain ⟨rfl, hdev, hfunc, hskip⟩ := mem_busFunctions.mp hf
    exact ⟨List.mem_range.mp hbus, hdev, hfunc, hskip⟩
  · rintro ⟨hbus, hdev, hfunc, hskip⟩
    exact ⟨f.bus, List.mem_range.mpr hbus, mem_busFunctions.mpr ⟨rfl, hdev, hfunc, hskip⟩⟩

theorem pairwise_deviceFunctions (e : Ecam) (bus dev : Nat) :
    (deviceFunctions e bus dev).Pairwise PcieFunction.Before := by
  have hfuncs : (if e.multiFunction bus dev = true then List.range 8 else [0]).Pairwise
      (· < ·) := by
    split
    · exact List.pairwise_lt_range
    · exact List.pairwise_singleton _ _
  unfold deviceFunctions
  rw [List.pairwise_map]
  exact hfuncs.imp fun hlt => Or.inr ⟨rfl, Or.inr ⟨rfl, hlt⟩⟩

theorem pairwise_busFunctions (e : Ecam) (bus : Nat) :
    (busFunctions e bus).Pairwise PcieFunction.Before := by
  unfold busFunctions
  rw [List.pairwise_flatMap]
  refine ⟨fun dev _ => pairwise_deviceFunctions e bus dev, ?_⟩
  refine List.pairwise_lt_range.imp ?_
  intro dev dev' hlt f hf g hg
  obtain ⟨hfbus, hfdev, _⟩ := mem_deviceFunctions.mp hf
  obtain ⟨hgbus, hgdev, _⟩ := mem_deviceFunctions.mp hg
  exact Or.inr ⟨by rw [hfbus, hgbus], Or.inl (by rw [hfdev, hgdev]; exact hlt)⟩

theorem pairwise_functionsUpTo (e : Ecam) (n : Nat) :
    (functionsUpTo e n).Pairwise PcieFunction.Before := by
  unfold functionsUpTo
  rw [List.pairwise_flatMap]
  refine ⟨fun bus _ => pairwise_busFunctions e bus, ?_⟩
  refine List.pairwise_lt_range.imp ?_
  intro bus bus' hlt f hf g hg
  obtain ⟨hfbus, _⟩ := mem_busFunctions.mp hf
  obtain ⟨hgbus, _⟩ := mem_busFunctions.mp hg
  exact Or.inl (by rw [hfbus, hgbus]; exact hlt)

/-!
## What an enumeration has to report
-/

/-- The functions reported are those present among the ones visited, in order, up to the
size of the table.  Every device of a bus is visited, and its functions from 1 on exactly
if it is marked as a multi-function device. -/
structure Reports (e : Ecam) (s : Sweep) : Prop where
  sweeps : exists n, 0 < n ∧ n ≤ 256 ∧ (n < 256 -> s.found = 32 ∨ s.found = 0) ∧
    forall f : PcieFunction, f.func = 0 -> (f ∈ s.visited ↔ f.bus < n ∧ f.dev < 32)
  skips : forall bus dev func, (⟨bus, dev, 0⟩ : PcieFunction) ∈ s.visited -> 0 < func ->
    func < 8 -> (⟨bus, dev, func⟩ ∉ s.visited ↔ e.multiFunction bus dev = false)
  first : s.reported = (s.visited.filter e.isPresent).take 32
  present : forall f, f ∈ s.reported -> e.Present f
  ordered : s.reported.Pairwise PcieFunction.Before
  found_eq : s.found = s.reported.length
  found_le : s.found ≤ 32
  length_eq : s.table.length = 32

/-- In addition, each row holds the header of its function. -/
structure Enumerates (e : Ecam) (s : Sweep) : Prop extends Reports e s where
  headers : forall (i : Nat) (f : PcieFunction), s.reported[i]? = some f ->
    s.table[i]? = some (e.header f)

/-- The enumeration of a configuration space is right, whatever the table held before. -/
def EnumeratesAll (e : Ecam) : Prop :=
  forall out : List PcieHeader, out.length = 32 ->
    exists s, enumerateEcam e out = .ok s ∧ Enumerates e s

/-- Nothing present among the functions of bus 0 that a sweep looks at. -/
def NothingOnBusZero (e : Ecam) : Prop :=
  forall f : PcieFunction, f.bus = 0 -> f.dev < 32 -> f.func < 8 ->
    (f.func = 0 ∨ e.multiFunction 0 f.dev = true) -> ¬ e.Present f

theorem reports_of_swept {e : Ecam} {out : List PcieHeader} {s : Sweep} {n : Nat}
    (h : Swept e out s) (hout : out.length = 32) (hvisited : s.visited = functionsUpTo e n)
    (hpos : 0 < n) (hle : n ≤ 256) (hstop : n < 256 -> out.length ≤ s.found ∨ s.found = 0) :
    Reports e s := by
  have hreported := h.reported
  rw [hout] at hreported
  have hfound : s.found ≤ 32 := by
    rw [h.count, hreported, List.length_take]
    exact Nat.min_le_left _ _
  have hsub : List.Sublist s.reported s.visited := by
    rw [hreported]
    exact (List.take_sublist _ _).trans List.filter_sublist
  refine ⟨⟨n, hpos, hle, ?_, ?_⟩, ?_, hreported, ?_, ?_, h.count, hfound, ?_⟩
  · intro hlt
    rcases hstop hlt with hfull | hnone
    · exact Or.inl (by lia)
    · exact Or.inr hnone
  · intro f hfunc
    rw [hvisited, mem_functionsUpTo, hfunc]
    constructor
    · rintro ⟨hbus, hdev, _⟩
      exact ⟨hbus, hdev⟩
    · rintro ⟨hbus, hdev⟩
      exact ⟨hbus, hdev, by decide, Or.inl rfl⟩
  · intro bus dev func hzero hlo hhi
    rw [hvisited, mem_functionsUpTo] at hzero
    obtain ⟨hbus, hdev, _⟩ := hzero
    rw [hvisited, mem_functionsUpTo]
    constructor
    · intro hskipped
      refine Bool.eq_false_iff.mpr ?_
      intro hmulti
      exact hskipped ⟨hbus, hdev, hhi, Or.inr hmulti⟩
    · rintro hsingle ⟨_, _, _, hfunc | hmulti⟩
      · exact absurd hfunc (Nat.ne_of_gt hlo)
      · rw [hsingle] at hmulti
        cases hmulti
  · intro f hf
    rw [hreported] at hf
    exact of_decide_eq_true (List.mem_filter.mp (List.mem_of_mem_take hf)).right
  · have hpairwise := pairwise_functionsUpTo e n
    rw [← hvisited] at hpairwise
    exact hpairwise.sublist hsub
  · rw [h.length, hout]

/-- The right functions are reported whatever they are; four words of each row are copied
and the others are left from before. -/
theorem enumerateEcam_reports (e : Ecam) {out : List PcieHeader} (hout : out.length = 32) :
    exists s, enumerateEcam e out = .ok s ∧ Reports e s ∧
      forall (i : Nat) (f : PcieFunction), s.reported[i]? = some f ->
        s.table[i]? = out[i]?.map (copyHeader e f) := by
  obtain ⟨s, n, hrun, hswept, hvisited, hpos, hle, hstop⟩ := enumerateEcam_spec e out
  refine ⟨s, hrun, reports_of_swept hswept hout hvisited hpos hle hstop, ?_⟩
  intro i f hi
  have hrow := hswept.rows i
  rw [hi] at hrow
  exact hrow

/-- The first function reported is the first present one of bus 0, if there is one. -/
theorem first_reported {e : Ecam} {out : List PcieHeader} {s : Sweep} {n : Nat}
    (h : Swept e out s) (hout : out.length = 32) (hvisited : s.visited = functionsUpTo e n)
    (hpos : 0 < n) {f : PcieFunction} {rest : List PcieFunction}
    (hfirst : (busFunctions e 0).filter e.isPresent = f :: rest) : s.reported[0]? = some f := by
  have hsplit : functionsUpTo e n = busFunctions e 0 ++
      (List.range' 1 (n - 1)).flatMap (busFunctions e) := by
    unfold functionsUpTo
    rw [List.range_eq_range', show n = n - 1 + 1 by lia, List.range'_succ, List.flatMap_cons]
    rfl
  rw [h.reported, hout, hvisited, hsplit, List.filter_append, hfirst]
  rfl

/-- A stale row shows in the enumeration. -/
theorem nothingOnBusZero_of_enumeratesAll {e : Ecam} (h : EnumeratesAll e) :
    NothingOnBusZero e := by
  intro g hbus hdev hfunc hskip hpresent
  have hmem : g ∈ (busFunctions e 0).filter e.isPresent :=
    List.mem_filter.mpr ⟨mem_busFunctions.mpr ⟨hbus, hdev, hfunc, hskip⟩, decide_eq_true hpresent⟩
  cases hfirst : (busFunctions e 0).filter e.isPresent with
  | nil =>
      rw [hfirst] at hmem
      cases hmem
  | cons f rest =>
      -- the table holds anything but the word of this function in `bar1`
      let stale : PcieHeader := { e.header f with bar1 := (e.header f).bar1 + 1#32 }
      obtain ⟨s, hrun, henum⟩ := h (List.replicate 32 stale) List.length_replicate
      obtain ⟨s', n, hrun', hswept, hvisited, hpos, _⟩ :=
        enumerateEcam_spec e (List.replicate 32 stale)
      rw [hrun, Except.ok.injEq] at hrun'
      subst hrun'
      have hzero := first_reported hswept List.length_replicate hvisited hpos hfirst
      have hheader := henum.headers 0 f hzero
      have hrow := hswept.rows 0
      rw [hzero, hheader] at hrow
      have hbar : (e.header f).bar1 = (e.header f).bar1 + 1#32 :=
        congrArg PcieHeader.bar1 (Option.some.inj hrow)
      have hone : (1#32 : Word) = 0#32 := by
        have hcancel := congrArg (fun w => w - (e.header f).bar1) hbar
        simpa [BitVec.add_comm] using hcancel.symm
      exact absurd hone (by decide)

/-- Enumeration is right exactly when it has nothing to report. -/
theorem enumeratesAll_iff (e : Ecam) : EnumeratesAll e ↔ NothingOnBusZero e := by
  constructor
  · exact nothingOnBusZero_of_enumeratesAll
  · intro hnothing out hout
    have hbus : (busFunctions e 0).filter e.isPresent = [] := by
      rw [List.filter_eq_nil_iff]
      intro f hf hpresent
      obtain ⟨hbus, hdev, hfunc, hskip⟩ := mem_busFunctions.mp hf
      exact hnothing f hbus hdev hfunc hskip (of_decide_eq_true hpresent)
    obtain ⟨s, hdevs, hswept, hvisited⟩ := devLoop_spec 0 (List.range 32) (swept_start e out)
    have hbusZero : s.visited = busFunctions e 0 := hvisited.trans (List.nil_append _)
    have hone : s.visited = functionsUpTo e 1 := by
      rw [hbusZero, functionsUpTo, List.range_one, List.flatMap_singleton]
    have hnone : s.reported = [] := by
      rw [hswept.reported, hbusZero, hbus, List.take_nil]
    have hfound : s.found = 0 := by
      rw [hswept.count, hnone]
      rfl
    refine ⟨s, ?_, reports_of_swept hswept hout hone (by decide) (by decide)
      (fun _ => Or.inr hfound), ?_⟩
    · unfold enumerateEcam
      rw [List.range_eq_range', List.range'_succ]
      exact busLoop_quickExit hdevs (by rw [hswept.length, hout]; decide) hfound
    · intro i f hi
      rw [hnone] at hi
      cases hi

/-- A configuration space with one function: a host bridge at 00:00.0. -/
def Ecam.hostBridge : Ecam where
  base := 0x40000000
  fits := by decide
  mem := Memory.write32 (fun _ => 0#8) 0x40000000#32 0x00081B36#32

theorem not_enumeratesAll_hostBridge : ¬ EnumeratesAll Ecam.hostBridge := by
  intro h
  have hword : Ecam.hostBridge.configWord ⟨0, 0, 0⟩ 0 = 0x00081B36#32 :=
    Memory.read32_write32 _ _ _ (by decide)
  refine nothingOnBusZero_of_enumeratesAll h ⟨0, 0, 0⟩ rfl (by decide) (by decide) (Or.inl rfl) ?_
  unfold Ecam.Present
  rw [hword]
  decide

end Drivers
end HolyRust
