import HolyRust.Compilation.State

/-!
# Program store

Eight slots in a fixed SRAM window of the ARM build.  A slot starts with the
length of its name; zero or more than sixteen there means that it is empty.  The
name is written as overlapping words, one for each byte, so the count and the
body follow it in that order.
-/

namespace HolyRust
namespace Drivers

open Foundation
open Compilation

def maxPrograms : Nat := 8

def slotWords : Nat := 64

/-- `_pstore_base` and `_pstore_top`: the 4 KiB below the stack ceiling. -/
def pstoreBase : Nat := 0x2000F000

def pstoreTop : Nat := 0x20010000

inductive StoreError where
  | noStore
  | notFound
  | full
  | tooLarge
deriving DecidableEq, Repr

def slotAddr (idx : Nat) : Option Nat :=
  if pstoreBase = 0 ∨ pstoreTop = 0 ∨ pstoreTop ≤ pstoreBase then none
  else some (pstoreBase + idx * (nameMax + 1 + 4 + slotWords * 4))

/-- One word for each byte of the name, each a byte further. -/
def saveName : List Byte -> Nat -> Mem -> Mem
  | [], _, mem => mem
  | b :: bs, addr, mem =>
      saveName bs (addr + 1) (mem.write32 (BitVec.ofNat 32 addr) (b.setWidth 32))

/-- Write `name` and body words into slot `idx`. -/
def save (idx : Nat) (name : List Byte) (words : List Word) (mem : Mem) :
    Except StoreError Mem :=
  match slotAddr idx with
  | none => .error .noStore
  | some addr =>
      if nameMax < name.length ∨ slotWords < words.length then .error .tooLarge
      else
        let mem1 := mem.write32 (BitVec.ofNat 32 addr) (BitVec.ofNat 32 name.length)
        let mem2 := saveName name (addr + 4) mem1
        let mem3 := mem2.write32 (BitVec.ofNat 32 (addr + 4 + nameMax))
          (BitVec.ofNat 32 words.length)
        .ok (mem3.writeWords (BitVec.ofNat 32 (addr + 4 + nameMax + 4)) words)

/-- Read slot `idx` into a zeroed name buffer of `NAME_MAX` bytes and a word
buffer of `capacity` words: the name buffer and the words. -/
def load (idx capacity : Nat) (mem : Mem) : Except StoreError (List Byte × List Word) :=
  match slotAddr idx with
  | none => .error .noStore
  | some addr =>
      let nameLen := (mem.read32 (BitVec.ofNat 32 addr)).toNat
      if nameLen = 0 ∨ nameMax < nameLen then .error .notFound
      else
        let name := (List.range nameMax).map fun i =>
          if i < nameLen then (mem.read32 (BitVec.ofNat 32 (addr + 4 + i))).setWidth 8 else 0#8
        let count := (mem.read32 (BitVec.ofNat 32 (addr + 4 + nameMax))).toNat
        if slotWords < count ∨ capacity < count then .error .tooLarge
        else .ok (name, mem.readWords (BitVec.ofNat 32 (addr + 4 + nameMax + 4)) count)

/-- The same with the caller's buffers: what is returned, and both buffers afterwards. -/
def loadInto (idx : Nat) (nameOut : List Byte) (wordsOut : List Word) (mem : Mem) :
    Except StoreError Nat × List Byte × List Word :=
  match slotAddr idx with
  | none => (.error .noStore, nameOut, wordsOut)
  | some addr =>
      let nameLen := (mem.read32 (BitVec.ofNat 32 addr)).toNat
      if nameLen = 0 ∨ nameMax < nameLen then (.error .notFound, nameOut, wordsOut)
      else
        let name := (List.range (min nameLen nameOut.length)).map (fun i =>
          (mem.read32 (BitVec.ofNat 32 (addr + 4 + i))).setWidth 8) ++ nameOut.drop nameLen
        let count := (mem.read32 (BitVec.ofNat 32 (addr + 4 + nameMax))).toNat
        if slotWords < count ∨ wordsOut.length < count then (.error .tooLarge, name, wordsOut)
        else
          (.ok count, name,
            mem.readWords (BitVec.ofNat 32 (addr + 4 + nameMax + 4)) count ++
              wordsOut.drop count)

/-!
## Footprints

A body that a function slot can hold has at most 32 words, so the part of a slot
that such a body uses ends before the next slot begins.
-/

/-- Address of slot `idx`. -/
def slotStart (idx : Nat) : Nat := pstoreBase + 277 * idx

/-- End of the part that a body of `FN_BODY_WORDS` words uses. -/
def slotUsed (idx : Nat) : Nat := slotStart idx + 24 + 4 * fnBodyWords

theorem slotAddr_eq (idx : Nat) : slotAddr idx = some (slotStart idx) := by
  unfold slotAddr slotStart
  rw [if_neg (by decide), show nameMax + 1 + 4 + slotWords * 4 = 277 from rfl, Nat.mul_comm]

theorem slotUsed_eq (idx : Nat) : slotUsed idx = slotStart idx + 152 := by
  unfold slotUsed
  rw [show fnBodyWords = 32 from rfl]

theorem slotUsed_le {idx : Nat} (h : idx < maxPrograms) : slotUsed idx ≤ pstoreTop := by
  have hmax : maxPrograms = 8 := rfl
  have hbase : pstoreBase = 0x2000F000 := rfl
  have htop : pstoreTop = 0x20010000 := rfl
  rw [slotUsed_eq]
  unfold slotStart
  lia

/-- What a successful load found. -/
theorem load_ok {idx capacity : Nat} {mem : Mem} {name : List Byte} {ws : List Word}
    (h : load idx capacity mem = .ok (name, ws)) :
    (mem.read32 (BitVec.ofNat 32 (slotStart idx + 20))).toNat = ws.length ∧
      ws = mem.readWords (BitVec.ofNat 32 (slotStart idx + 24)) ws.length := by
  unfold load at h
  simp only [slotAddr_eq] at h
  split at h
  · cases h
  · split at h
    · cases h
    · injection h with hpair
      obtain ⟨_, hws⟩ := Prod.mk.inj hpair
      have hlen :
          ws.length = (mem.read32 (BitVec.ofNat 32 (slotStart idx + 4 + nameMax))).toNat := by
        rw [← hws, Memory.length_readWords]
      rw [hlen]
      exact ⟨rfl, hws.symm⟩

/-- A slot is empty by its first word alone. -/
theorem load_notFound_iff {idx capacity : Nat} {mem : Mem} :
    load idx capacity mem = .error .notFound ↔
      (mem.read32 (BitVec.ofNat 32 (slotStart idx))).toNat = 0 ∨
        nameMax < (mem.read32 (BitVec.ofNat 32 (slotStart idx))).toNat := by
  unfold load
  simp only [slotAddr_eq]
  split
  · rename_i hempty
    exact ⟨fun _ => hempty, fun _ => rfl⟩
  · rename_i hused
    refine ⟨fun h => ?_, fun h => absurd h hused⟩
    split at h <;> cases h

/-- Every body that can be loaded from slot `idx` into a function slot satisfies `P`. -/
def SlotHolds (P : List Word -> Prop) (mem : Mem) (idx : Nat) : Prop :=
  forall name ws, load idx slotWords mem = .ok (name, ws) -> ws.length ≤ fnBodyWords -> P ws

/-- A load of such a body reads the used part of its slot only. -/
theorem load_sameWindow {idx : Nat} {mem mem' : Mem} {name : List Byte} {ws : List Word}
    (h : mem.SameWindow (slotStart idx) (slotUsed idx) mem')
    (hload : load idx slotWords mem = .ok (name, ws)) (hlen : ws.length ≤ fnBodyWords) :
    load idx slotWords mem' = .ok (name, ws) := by
  obtain ⟨hcount, hwords⟩ := load_ok hload
  have hused := slotUsed_eq idx
  have hbody : fnBodyWords = 32 := rfl
  have hhead : mem.read32 (BitVec.ofNat 32 (slotStart idx)) =
      mem'.read32 (BitVec.ofNat 32 (slotStart idx)) := h.read32 (by lia) (by lia)
  have hcount' : mem.read32 (BitVec.ofNat 32 (slotStart idx + 4 + nameMax)) =
      mem'.read32 (BitVec.ofNat 32 (slotStart idx + 4 + nameMax)) := by
    rw [show nameMax = 16 from rfl]
    exact h.read32 (by lia) (by lia)
  have hname : (List.range nameMax).map (fun i =>
        if i < (mem'.read32 (BitVec.ofNat 32 (slotStart idx))).toNat then
          (mem.read32 (BitVec.ofNat 32 (slotStart idx + 4 + i))).setWidth 8 else 0#8) =
      (List.range nameMax).map (fun i =>
        if i < (mem'.read32 (BitVec.ofNat 32 (slotStart idx))).toNat then
          (mem'.read32 (BitVec.ofNat 32 (slotStart idx + 4 + i))).setWidth 8 else 0#8) := by
    apply List.map_congr_left
    intro i hi
    have hi16 : i < 16 := List.mem_range.mp hi
    rw [h.read32 (a := slotStart idx + 4 + i) (by lia) (by lia)]
  have hrest : mem.readWords (BitVec.ofNat 32 (slotStart idx + 4 + nameMax + 4)) ws.length =
      mem'.readWords (BitVec.ofNat 32 (slotStart idx + 4 + nameMax + 4)) ws.length := by
    rw [show nameMax = 16 from rfl]
    exact h.readWords (by lia) (by lia)
  have hcountLen : (mem'.read32 (BitVec.ofNat 32 (slotStart idx + 4 + nameMax))).toNat =
      ws.length := by
    rw [← hcount']
    exact hcount
  unfold load at hload ⊢
  simp only [slotAddr_eq, hhead, hcount', hname, hcountLen, hrest] at hload ⊢
  exact hload

theorem slotHolds_sameWindow {P : List Word -> Prop} {idx : Nat} {mem mem' : Mem}
    (h : mem'.SameWindow (slotStart idx) (slotUsed idx) mem) (hmem : SlotHolds P mem idx) :
    SlotHolds P mem' idx := by
  intro name ws hload hlen
  exact hmem name ws (load_sameWindow h hload hlen) hlen

/-!
## Saving
-/

theorem saveName_outside {bs : List Byte} {addr b : Nat} (mem : Mem)
    (haddr : addr + bs.length + 3 ≤ 2 ^ 32) (hb : b < 2 ^ 32)
    (h : b < addr ∨ addr + bs.length + 3 ≤ b) :
    saveName bs addr mem (BitVec.ofNat 32 b) = mem (BitVec.ofNat 32 b) := by
  induction bs generalizing addr mem with
  | nil => rfl
  | cons c bs ih =>
      rw [List.length_cons] at haddr h
      rw [saveName, ih _ (by lia) (by lia),
        Memory.write32_ofNat_outside _ _ (by lia) hb (by lia)]

/-- What a successful save wrote, step by step. -/
theorem save_ok {idx : Nat} {name : List Byte} {words : List Word} {mem mem' : Mem}
    (h : save idx name words mem = .ok mem') :
    name.length ≤ 16 ∧ words.length ≤ slotWords ∧
      mem' = ((saveName name (slotStart idx + 4)
        (mem.write32 (BitVec.ofNat 32 (slotStart idx)) (BitVec.ofNat 32 name.length))).write32
          (BitVec.ofNat 32 (slotStart idx + 20)) (BitVec.ofNat 32 words.length)).writeWords
            (BitVec.ofNat 32 (slotStart idx + 24)) words := by
  unfold save at h
  simp only [slotAddr_eq] at h
  split at h
  · cases h
  · rename_i hfits
    rw [not_or, Nat.not_lt, Nat.not_lt] at hfits
    injection h with hmem
    exact ⟨hfits.left, hfits.right, hmem.symm⟩

theorem exists_save {name : List Byte} {words : List Word} (hname : name.length ≤ nameMax)
    (hwords : words.length ≤ slotWords) (idx : Nat) (mem : Mem) :
    exists mem', save idx name words mem = .ok mem' := by
  unfold save
  simp only [slotAddr_eq]
  rw [if_neg (by lia)]
  exact ⟨_, rfl⟩

theorem slotStart_fits {idx : Nat} (h : idx < maxPrograms) : slotStart idx + 280 ≤ 2 ^ 32 := by
  have hmax : maxPrograms = 8 := rfl
  have hbase : pstoreBase = 0x2000F000 := rfl
  unfold slotStart
  lia

/-- A save stays between the start of its slot and the end of its body. -/
theorem save_outside {idx b : Nat} {name : List Byte} {words : List Word} {mem mem' : Mem}
    (h : save idx name words mem = .ok mem') (hidx : idx < maxPrograms) (hb : b < 2 ^ 32)
    (hout : b < slotStart idx ∨ slotStart idx + 24 + 4 * words.length ≤ b) :
    mem' (BitVec.ofNat 32 b) = mem (BitVec.ofNat 32 b) := by
  obtain ⟨hname, hwords, rfl⟩ := save_ok h
  have hfits := slotStart_fits hidx
  have hslot : slotWords = 64 := rfl
  rw [Memory.writeWords_outside _ (by lia) hb (by lia),
    Memory.write32_ofNat_outside _ _ (by lia) hb (by lia),
    saveName_outside _ (by lia) hb (by lia),
    Memory.write32_ofNat_outside _ _ (by lia) hb (by lia)]

/-- ... so it leaves the used part of every other slot alone. -/
theorem save_otherSlot {idx i : Nat} {name : List Byte} {words : List Word} {mem mem' : Mem}
    (h : save idx name words mem = .ok mem') (hidx : idx < maxPrograms) (hi : i < maxPrograms)
    (hne : i ≠ idx) (hlen : words.length ≤ fnBodyWords) :
    mem'.SameWindow (slotStart i) (slotUsed i) mem := by
  intro b hlo hhi
  have hfits := slotStart_fits hi
  have hused := slotUsed_eq i
  have hbody : fnBodyWords = 32 := rfl
  have hstarts : slotStart i + 277 ≤ slotStart idx ∨ slotStart idx + 277 ≤ slotStart i := by
    unfold slotStart
    lia
  exact save_outside h hidx (by lia) (by lia)

/-- What is loaded from a slot after a save there is what was saved. -/
theorem load_save {idx : Nat} {name loaded : List Byte} {words ws : List Word} {mem mem' : Mem}
    (h : save idx name words mem = .ok mem') (hidx : idx < maxPrograms)
    (hload : load idx slotWords mem' = .ok (loaded, ws)) : ws = words := by
  obtain ⟨hcount, hwords⟩ := load_ok hload
  obtain ⟨_, hlen, rfl⟩ := save_ok h
  have hfits := slotStart_fits hidx
  have hslot : slotWords = 64 := rfl
  have hbits : (BitVec.ofNat 32 (slotStart idx + 20)).toNat = slotStart idx + 20 := by
    rw [BitVec.toNat_ofNat, Nat.mod_eq_of_lt (by lia)]
  have hbody : (BitVec.ofNat 32 (slotStart idx + 24)).toNat = slotStart idx + 24 := by
    rw [BitVec.toNat_ofNat, Nat.mod_eq_of_lt (by lia)]
  rw [Memory.read32_writeWords_outside (by lia) _ (by lia) (by lia) (by lia),
    Memory.read32_write32 _ _ _ (by lia), BitVec.toNat_ofNat, Nat.mod_eq_of_lt (by lia)] at hcount
  rw [hwords, ← hcount]
  exact Memory.readWords_writeWords (by lia) _ (by lia)

/-- The name buffer after a load of `name`. -/
def padName (name : List Byte) : List Byte :=
  (List.range nameMax).map fun i => name.getD i 0#8

/-- The byte of each word stays, the zeros above it are overwritten. -/
theorem saveName_inside {bs : List Byte} {addr i : Nat} (mem : Mem)
    (haddr : addr + bs.length + 3 ≤ 2 ^ 32) (hi : i < bs.length) :
    saveName bs addr mem (BitVec.ofNat 32 (addr + i)) = bs.getD i 0#8 := by
  induction bs generalizing addr i mem with
  | nil => exact absurd hi (Nat.not_lt_zero i)
  | cons c bs ih =>
      rw [List.length_cons] at haddr hi
      rw [saveName]
      cases i with
      | zero =>
          have hkept := @saveName_outside bs (addr + 1) addr
            (mem.write32 (BitVec.ofNat 32 addr) (c.setWidth 32)) (by lia) (by lia) (by lia)
          refine hkept.trans ((Memory.write32_self mem _ _).trans ?_)
          exact BitVec.setWidth_setWidth_of_le c (by decide)
      | succ i =>
          rw [show addr + (i + 1) = addr + 1 + i by lia]
          exact ih _ (by lia) (by lia)

/-- A slot with this program in it, whatever the rest of its bytes. -/
structure SlotContains (mem : Mem) (idx : Nat) (name : List Byte) (words : List Word) :
    Prop where
  length : mem.read32 (BitVec.ofNat 32 (slotStart idx)) = BitVec.ofNat 32 name.length
  name : forall i, i < name.length ->
    mem (BitVec.ofNat 32 (slotStart idx + 4 + i)) = name.getD i 0#8
  count : mem.read32 (BitVec.ofNat 32 (slotStart idx + 20)) = BitVec.ofNat 32 words.length
  body : mem.readWords (BitVec.ofNat 32 (slotStart idx + 24)) words.length = words

theorem slotContains_save {idx : Nat} {name : List Byte} {words : List Word} {mem mem' : Mem}
    (h : save idx name words mem = .ok mem') (hidx : idx < maxPrograms) :
    SlotContains mem' idx name words := by
  obtain ⟨hnameLen, hwordsLen, rfl⟩ := save_ok h
  have hfits := slotStart_fits hidx
  have hslot : slotWords = 64 := rfl
  have hnat : forall n, n < 280 ->
      (BitVec.ofNat 32 (slotStart idx + n)).toNat = slotStart idx + n := by
    intro n hn
    rw [BitVec.toNat_ofNat, Nat.mod_eq_of_lt (by lia)]
  generalize hmem1 : mem.write32 (BitVec.ofNat 32 (slotStart idx))
    (BitVec.ofNat 32 name.length) = mem1
  generalize hmem2 : saveName name (slotStart idx + 4) mem1 = mem2
  generalize hmem3 : mem2.write32 (BitVec.ofNat 32 (slotStart idx + 20))
    (BitVec.ofNat 32 words.length) = mem3
  -- below the count only the first two writes matter
  have hlow : forall n, n < 20 ->
      mem3.writeWords (BitVec.ofNat 32 (slotStart idx + 24)) words
        (BitVec.ofNat 32 (slotStart idx + n)) = mem2 (BitVec.ofNat 32 (slotStart idx + n)) := by
    intro n hn
    rw [Memory.writeWords_outside _ (by lia) (by lia) (by lia), ← hmem3,
      Memory.write32_ofNat_outside _ _ (by lia) (by lia) (by lia)]
  constructor
  · rw [← Memory.read32_write32 mem (BitVec.ofNat 32 (slotStart idx))
      (BitVec.ofNat 32 name.length) (by decide), hmem1]
    apply Memory.read32_congr
    intro i hi
    rw [← BitVec.ofNat_add, hlow i (by lia), ← hmem2,
      saveName_outside _ (by lia) (by lia) (by lia)]
  · intro i hi
    rw [Nat.add_assoc, hlow (4 + i) (by lia), ← Nat.add_assoc, ← hmem2]
    exact saveName_inside _ (by lia) hi
  · rw [Memory.read32_writeWords_outside (by lia) _ (by rw [hnat 24 (by lia)]; lia)
      (by rw [hnat 20 (by lia)]; lia) (by rw [hnat 20 (by lia), hnat 24 (by lia)]; lia), ← hmem3,
      Memory.read32_write32 _ _ _ (by lia)]
  · exact Memory.readWords_writeWords (by decide) mem3 (by rw [hnat 24 (by lia)]; lia)

/-- What was saved under a name is loaded with that name. -/
theorem load_of_save {idx : Nat} {name : List Byte} {words : List Word} {mem mem' : Mem}
    (h : save idx name words mem = .ok mem') (hidx : idx < maxPrograms) (hname : name ≠ []) :
    load idx slotWords mem' = .ok (padName name, words) := by
  obtain ⟨hnameLen, hwordsLen, _⟩ := save_ok h
  have hcontains := slotContains_save h hidx
  have hslot : slotWords = 64 := rfl
  have hmax : nameMax = 16 := rfl
  have hpos := List.length_pos_iff.mpr hname
  have hbytes : (List.range nameMax).map (fun i =>
      if i < name.length then
        (mem'.read32 (BitVec.ofNat 32 (slotStart idx + 4 + i))).setWidth 8
      else 0#8) = padName name := by
    apply List.map_congr_left
    intro i hi
    split
    · rename_i hin
      rw [Memory.read32_setWidth]
      exact hcontains.name i hin
    · rename_i hout
      rw [List.getD_eq_getElem?_getD, List.getElem?_eq_none (Nat.not_lt.mp hout)]
      rfl
  unfold load
  simp only [slotAddr_eq]
  rw [show slotStart idx + 4 + nameMax = slotStart idx + 20 from rfl, hcontains.length,
    hcontains.count, BitVec.toNat_ofNat, BitVec.toNat_ofNat, Nat.mod_eq_of_lt (by lia),
    Nat.mod_eq_of_lt (by lia), if_neg (by lia), if_neg (by lia), hbytes,
    show slotStart idx + 20 + 4 = slotStart idx + 24 from rfl, hcontains.body]

theorem slotHolds_save {P : Nat -> List Word -> Prop} {idx : Nat} {name : List Byte}
    {words : List Word} {mem mem' : Mem} (h : save idx name words mem = .ok mem')
    (hidx : idx < maxPrograms) (hlen : words.length ≤ fnBodyWords) (hwords : P idx words)
    (hmem : forall i, i < maxPrograms -> i ≠ idx -> SlotHolds (P i) mem i) :
    forall i, i < maxPrograms -> SlotHolds (P i) mem' i := by
  intro i hi
  by_cases heq : i = idx
  · subst heq
    intro loaded ws hload _
    rw [load_save h hidx hload]
    exact hwords
  · exact slotHolds_sameWindow (save_otherSlot h hidx hi heq hlen) (hmem i hi heq)

end Drivers
end HolyRust
