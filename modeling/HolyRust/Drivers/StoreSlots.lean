import HolyRust.Drivers.ProgramMap

/-!
# Slots of the program store

The slots are 277 bytes apart: one byte is counted for the length of the name, but
four are written.  A body of 64 words therefore ends three bytes into the next slot.
Below: which saves keep to their slot and leave the other slots as they are, and that a
saved program is read back, into the caller's buffers and into a compiler.
-/

namespace HolyRust
namespace Drivers

open Foundation
open Compilation

theorem load_eq_loadInto (idx : Nat) (wordsOut : List Word) (mem : Mem) :
    load idx wordsOut.length mem =
      match loadInto idx (List.replicate nameMax 0#8) wordsOut mem with
      | (.ok count, name, words) => .ok (name, words.take count)
      | (.error e, _, _) => .error e := by
  unfold load loadInto
  simp only [slotAddr_eq, List.length_replicate, List.drop_replicate]
  split
  · rfl
  · rename_i hname
    split
    · rfl
    · dsimp only
      rw [List.take_left' (Memory.length_readWords _ _ _)]
      congr 2
      rw [Nat.min_eq_left (by lia)]
      apply List.ext_getElem
      · simp
        lia
      · intro i hi hi'
        simp [List.getElem_append]

/-!
## The words that a save pokes
-/

/-- Values for addresses `stride` bytes apart. -/
def pokesFrom (stride : Nat) : Nat -> List Word -> List (Nat × Word)
  | _, [] => []
  | addr, w :: ws => (addr, w) :: pokesFrom stride (addr + stride) ws

def savePokes (idx : Nat) (name : List Byte) (words : List Word) : List (Nat × Word) :=
  (slotStart idx, BitVec.ofNat 32 name.length) ::
    (pokesFrom 1 (slotStart idx + 4) (name.map fun b => b.setWidth 32) ++
      (slotStart idx + 20, BitVec.ofNat 32 words.length) ::
        pokesFrom 4 (slotStart idx + 24) words)

def pokeAll (pokes : List (Nat × Word)) (mem : Mem) : Mem :=
  pokes.foldl (fun mem poke => mem.write32 (BitVec.ofNat 32 poke.1) poke.2) mem

theorem saveName_eq_pokeAll (bs : List Byte) (addr : Nat) (mem : Mem) :
    saveName bs addr mem = pokeAll (pokesFrom 1 addr (bs.map fun b => b.setWidth 32)) mem := by
  induction bs generalizing addr mem with
  | nil => rfl
  | cons b bs ih => exact ih _ _

theorem writeWords_eq_pokeAll (ws : List Word) (addr : Nat) (mem : Mem) :
    mem.writeWords (BitVec.ofNat 32 addr) ws = pokeAll (pokesFrom 4 addr ws) mem := by
  induction ws generalizing addr mem with
  | nil => rfl
  | cons w ws ih =>
      rw [Memory.writeWords, ← BitVec.ofNat_add]
      exact ih _ _

theorem pokeAll_append (ps qs : List (Nat × Word)) (mem : Mem) :
    pokeAll (ps ++ qs) mem = pokeAll qs (pokeAll ps mem) :=
  List.foldl_append

/-- A save is its pokes, one after the other. -/
theorem save_eq_pokeAll {idx : Nat} {name : List Byte} {words : List Word} {mem mem' : Mem}
    (h : save idx name words mem = .ok mem') : mem' = pokeAll (savePokes idx name words) mem := by
  rw [(save_ok h).right.right, writeWords_eq_pokeAll, saveName_eq_pokeAll]
  unfold savePokes
  rw [← List.singleton_append, pokeAll_append, pokeAll_append, ← List.singleton_append,
    pokeAll_append]
  rfl

theorem mem_pokesFrom {stride addr : Nat} {ws : List Word} {poke : Nat × Word}
    (h : poke ∈ pokesFrom stride addr ws) :
    exists i, i < ws.length ∧ poke.1 = addr + stride * i := by
  induction ws generalizing addr with
  | nil => cases h
  | cons w ws ih =>
      rcases List.mem_cons.mp h with rfl | hrest
      · exact ⟨0, by simp, by simp⟩
      · rcases ih hrest with ⟨i, hi, haddr⟩
        refine ⟨i + 1, Nat.succ_lt_succ hi, ?_⟩
        rw [haddr, Nat.mul_succ]
        lia

theorem exists_mem_pokesFrom {stride addr i : Nat} {ws : List Word} (hi : i < ws.length) :
    exists w, (addr + stride * i, w) ∈ pokesFrom stride addr ws := by
  induction ws generalizing addr i with
  | nil => exact absurd hi (Nat.not_lt_zero i)
  | cons w ws ih =>
      cases i with
      | zero => exact ⟨w, List.mem_cons_self⟩
      | succ i =>
          have hnext : addr + stride * (i + 1) = addr + stride + stride * i := by
            rw [Nat.mul_succ]
            lia
          rcases ih (Nat.lt_of_succ_lt_succ hi) with ⟨w', hw'⟩
          exact ⟨w', List.mem_cons_of_mem _ (hnext ▸ hw')⟩

/-- Every byte that is poked belongs to slot `idx` and to the store. -/
def WritesOwnSlot (idx : Nat) (name : List Byte) (words : List Word) : Prop :=
  forall poke, poke ∈ savePokes idx name words ->
    slotStart idx ≤ poke.1 ∧ poke.1 + 4 ≤ slotStart (idx + 1) ∧
      pstoreBase ≤ poke.1 ∧ poke.1 + 4 ≤ pstoreTop

theorem slotStart_succ (idx : Nat) : slotStart (idx + 1) = slotStart idx + 277 := by
  unfold slotStart
  lia

theorem slotStart_succ_le {idx : Nat} (h : idx < maxPrograms) :
    pstoreBase ≤ slotStart idx ∧ slotStart (idx + 1) ≤ pstoreTop := by
  unfold maxPrograms at h
  unfold slotStart pstoreBase pstoreTop
  lia

theorem writesOwnSlot_iff {idx : Nat} {name : List Byte} {words : List Word}
    (hidx : idx < maxPrograms) (hname : name.length ≤ nameMax) :
    WritesOwnSlot idx name words ↔ words.length < slotWords := by
  have hnext := slotStart_succ idx
  have hstore := slotStart_succ_le hidx
  have hmax : nameMax = 16 := rfl
  have hslot : slotWords = 64 := rfl
  constructor
  · intro h
    by_contra hlong
    have hlast : 63 < words.length := by lia
    rcases exists_mem_pokesFrom hlast with ⟨w, hw⟩
    have hmem : (slotStart idx + 24 + 4 * 63, w) ∈ savePokes idx name words :=
      List.mem_cons_of_mem _ (List.mem_append_right _ (List.mem_cons_of_mem _ hw))
    have hinside := (h _ hmem).right.left
    dsimp only at hinside
    lia
  · intro hshort poke hpoke
    have hplace : slotStart idx ≤ poke.1 ∧ poke.1 + 4 ≤ slotStart idx + 277 := by
      rcases List.mem_cons.mp hpoke with rfl | hpoke
      · lia
      · rcases List.mem_append.mp hpoke with hpoke | hpoke
        · rcases mem_pokesFrom hpoke with ⟨i, hi, haddr⟩
          rw [List.length_map] at hi
          lia
        · rcases List.mem_cons.mp hpoke with rfl | hpoke
          · lia
          · rcases mem_pokesFrom hpoke with ⟨i, hi, haddr⟩
            lia
    lia

/-!
## What a load reads
-/

/-- A program with a body of `SLOT_WORDS` words: its last word lies across the border. -/
def HoldsFullBody (mem : Mem) (idx : Nat) : Prop :=
  (mem.read32 (BitVec.ofNat 32 (slotStart idx))).toNat ≠ 0 ∧
    (mem.read32 (BitVec.ofNat 32 (slotStart idx))).toNat ≤ nameMax ∧
    (mem.read32 (BitVec.ofNat 32 (slotStart idx + 20))).toNat = slotWords

theorem readWords_slot_congr {mem mem' : Mem} {idx n : Nat}
    (h : mem.SameWindow (slotStart idx) (slotStart (idx + 1)) mem') (hn : n ≤ slotWords)
    (hlast : n = slotWords -> mem.read32 (BitVec.ofNat 32 (slotStart idx + 276)) =
      mem'.read32 (BitVec.ofNat 32 (slotStart idx + 276))) :
    mem.readWords (BitVec.ofNat 32 (slotStart idx + 24)) n =
      mem'.readWords (BitVec.ofNat 32 (slotStart idx + 24)) n := by
  have hnext := slotStart_succ idx
  have hslot : slotWords = 64 := rfl
  by_cases hfull : n = slotWords
  · have hfirst := h.readWords (a := slotStart idx + 24) (n := 63) (by lia) (by lia)
    rw [show n = 63 + 1 by lia, Memory.readWords_append, Memory.readWords_append, hfirst]
    congr 1
    exact congrArg (fun w => [w]) (hlast hfull)
  · exact h.readWords (by lia) (by lia)

theorem loadInto_congr {mem mem' : Mem} {idx : Nat}
    (h : mem.SameWindow (slotStart idx) (slotStart (idx + 1)) mem')
    (hlast : HoldsFullBody mem idx -> mem.read32 (BitVec.ofNat 32 (slotStart idx + 276)) =
      mem'.read32 (BitVec.ofNat 32 (slotStart idx + 276)))
    (nameOut : List Byte) (wordsOut : List Word) :
    loadInto idx nameOut wordsOut mem = loadInto idx nameOut wordsOut mem' := by
  have hnext := slotStart_succ idx
  have hmax : nameMax = 16 := rfl
  have hhead : mem.read32 (BitVec.ofNat 32 (slotStart idx)) =
      mem'.read32 (BitVec.ofNat 32 (slotStart idx)) := h.read32 (by lia) (by lia)
  have hcount : mem.read32 (BitVec.ofNat 32 (slotStart idx + 20)) =
      mem'.read32 (BitVec.ofNat 32 (slotStart idx + 20)) := h.read32 (by lia) (by lia)
  unfold HoldsFullBody at hlast
  rw [hhead, hcount] at hlast
  unfold loadInto
  simp only [slotAddr_eq]
  rw [show slotStart idx + 4 + nameMax = slotStart idx + 20 from rfl, hhead, hcount]
  generalize (mem'.read32 (BitVec.ofNat 32 (slotStart idx))).toNat = nameLen at hlast ⊢
  generalize (mem'.read32 (BitVec.ofNat 32 (slotStart idx + 20))).toNat = count at hlast ⊢
  by_cases hempty : nameLen = 0 ∨ nameMax < nameLen
  · rw [if_pos hempty, if_pos hempty]
  · rw [if_neg hempty, if_neg hempty]
    have hname : (List.range (min nameLen nameOut.length)).map (fun i =>
          (mem.read32 (BitVec.ofNat 32 (slotStart idx + 4 + i))).setWidth 8) =
        (List.range (min nameLen nameOut.length)).map (fun i =>
          (mem'.read32 (BitVec.ofNat 32 (slotStart idx + 4 + i))).setWidth 8) := by
      apply List.map_congr_left
      intro i hi
      have hi16 := List.mem_range.mp hi
      rw [h.read32 (a := slotStart idx + 4 + i) (by lia) (by lia)]
    rw [hname]
    by_cases hlarge : slotWords < count ∨ wordsOut.length < count
    · rw [if_pos hlarge, if_pos hlarge]
    · have hbody := readWords_slot_congr (n := count) h (by lia)
        (fun hfull => hlast ⟨by lia, by lia, hfull⟩)
      rw [if_neg hlarge, if_neg hlarge, hbody]

/-- The last word of a full body comes into a buffer that has room for it. -/
theorem loadInto_of_holdsFullBody {mem : Mem} {idx : Nat} (h : HoldsFullBody mem idx) :
    loadInto idx [] (List.replicate slotWords 0#32) mem =
      (.ok slotWords, [], mem.readWords (BitVec.ofNat 32 (slotStart idx + 24)) slotWords) := by
  rcases h with ⟨hpos, hname, hcount⟩
  unfold loadInto
  simp only [slotAddr_eq]
  rw [show slotStart idx + 4 + nameMax = slotStart idx + 20 from rfl, hcount,
    if_neg (by lia), if_neg (by simp)]
  simp

/-!
## Independence
-/

/-- The first three bytes of slot `idx` are those of a length field. -/
def LengthBytes (mem : Mem) (idx len : Nat) : Prop :=
  forall k, k < 3 ->
    mem (BitVec.ofNat 32 (slotStart idx + k)) = (BitVec.ofNat 32 len).extractLsb' (8 * k) 8

theorem lengthBytes_save {idx : Nat} {name : List Byte} {words : List Word} {mem mem' : Mem}
    (h : save idx name words mem = .ok mem') (hidx : idx < maxPrograms) :
    LengthBytes mem' idx name.length := by
  intro k hk
  rw [← (slotContains_save h hidx).length, Memory.extractLsb'_read32 _ _ (by lia),
    ← BitVec.ofNat_add]

/-- A save to `i` is fine by `j`: it goes through, whoever loads slot `j` sees no
difference, and no byte outside slot `i` is written. -/
def SlotIndependent (i j : Nat) (name : List Byte) (words : List Word) (mem : Mem) : Prop :=
  exists mem', save i name words mem = .ok mem' ∧
    (forall nameOut wordsOut,
      loadInto j nameOut wordsOut mem' = loadInto j nameOut wordsOut mem) ∧
    WritesOwnSlot i name words

theorem save_sameSlot {i j : Nat} {name : List Byte} {words : List Word} {mem mem' : Mem}
    (h : save i name words mem = .ok mem') (hi : i < maxPrograms) (hj : j < maxPrograms)
    (hne : i ≠ j) (hwords : words.length < slotWords) :
    mem'.SameWindow (slotStart j) (slotStart (j + 1)) mem := by
  intro b hlo hhi
  have hslot : slotWords = 64 := rfl
  have hfits := slotStart_fits hj
  have hnext := slotStart_succ j
  have hstarts : slotStart j + 277 ≤ slotStart i ∨ slotStart i + 277 ≤ slotStart j := by
    unfold slotStart
    lia
  exact save_outside h hi (by lia) (by lia)

/-- The word across the border of slots `j` and `j + 1` survives a save of another slot,
and one of slot `j + 1` if it writes the same length. -/
theorem borderWord_save {i j : Nat} {name : List Byte} {words : List Word} {mem mem' : Mem}
    (h : save i name words mem = .ok mem') (hi : i < maxPrograms) (hj : j < maxPrograms)
    (hne : i ≠ j) (hwords : words.length < slotWords)
    (hborder : j + 1 = i -> LengthBytes mem i name.length) :
    mem'.read32 (BitVec.ofNat 32 (slotStart j + 276)) =
      mem.read32 (BitVec.ofNat 32 (slotStart j + 276)) := by
  have hslot : slotWords = 64 := rfl
  have hfits := slotStart_fits hj
  have hnext := slotStart_succ j
  apply Memory.read32_congr
  intro k hk
  rw [← BitVec.ofNat_add]
  by_cases hadj : j + 1 = i
  · cases k with
    | zero =>
        exact save_sameSlot h hi hj hne hwords (slotStart j + 276) (by lia) (by lia)
    | succ k =>
        rw [show slotStart j + 276 + (k + 1) = slotStart i + k by rw [← hadj]; lia,
          lengthBytes_save h hi k (by lia), hborder hadj k (by lia)]
  · have hstarts : slotStart j + 554 ≤ slotStart i ∨ slotStart i + 277 ≤ slotStart j := by
      unfold slotStart
      lia
    exact save_outside h hi (by lia) (by lia)

/-- Whoever loads a full body sees the word across the border. -/
theorem borderWord_of_loadInto {j : Nat} {mem mem' : Mem} (hfull : HoldsFullBody mem j)
    (hfull' : HoldsFullBody mem' j)
    (hload : loadInto j [] (List.replicate slotWords 0#32) mem' =
      loadInto j [] (List.replicate slotWords 0#32) mem) :
    mem'.read32 (BitVec.ofNat 32 (slotStart j + 276)) =
      mem.read32 (BitVec.ofNat 32 (slotStart j + 276)) := by
  rw [loadInto_of_holdsFullBody hfull, loadInto_of_holdsFullBody hfull',
    show slotWords = 64 from rfl, Memory.readWords_append _ _ 63 1,
    Memory.readWords_append _ _ 63 1] at hload
  have hlists := List.append_inj_right (Prod.mk.inj (Prod.mk.inj hload).right).right
    (by rw [Memory.length_readWords, Memory.length_readWords])
  exact List.head_eq_of_cons_eq hlists

/-- If that word survives a save of the next slot, its upper bytes were the length before. -/
theorem lengthBytes_of_borderWord {i j : Nat} {name : List Byte} {words : List Word}
    {mem mem' : Mem} (h : save i name words mem = .ok mem') (hi : i < maxPrograms)
    (hadj : j + 1 = i)
    (hborder : mem'.read32 (BitVec.ofNat 32 (slotStart j + 276)) =
      mem.read32 (BitVec.ofNat 32 (slotStart j + 276))) :
    LengthBytes mem i name.length := by
  have hnext := slotStart_succ j
  intro k hk
  have hbyte : (mem'.read32 (BitVec.ofNat 32 (slotStart j + 276))).extractLsb'
      (8 * (k + 1)) 8 =
      (mem.read32 (BitVec.ofNat 32 (slotStart j + 276))).extractLsb' (8 * (k + 1)) 8 := by
    rw [hborder]
  rw [Memory.extractLsb'_read32 _ _ (by lia), Memory.extractLsb'_read32 _ _ (by lia),
    ← BitVec.ofNat_add,
    show slotStart j + 276 + (k + 1) = slotStart i + k by rw [← hadj]; lia,
    lengthBytes_save h hi k hk] at hbyte
  exact hbyte.symm

/-- A save to slot `i` leaves slot `j` alone exactly when the body has fewer than 64
words and, where slot `j` comes right before with 64 words of its own, the length of the
name does not change the three bytes that they share. -/
theorem slotIndependent_iff {i j : Nat} (hi : i < maxPrograms) (hj : j < maxPrograms)
    (hne : i ≠ j) {name : List Byte} (hname : name.length ≤ nameMax) {words : List Word}
    (hwords : words.length ≤ slotWords) (mem : Mem) :
    SlotIndependent i j name words mem ↔
      words.length < slotWords ∧
        (j + 1 = i -> HoldsFullBody mem j -> LengthBytes mem i name.length) := by
  have hnext := slotStart_succ j
  rcases exists_save hname hwords i mem with ⟨mem', hsave⟩
  constructor
  · rintro ⟨mem'', hsave', hload, hwrites⟩
    rw [hsave] at hsave'
    cases hsave'
    have hshort := (writesOwnSlot_iff hi hname).mp hwrites
    refine ⟨hshort, fun hadj hfull => ?_⟩
    have hsame := save_sameSlot hsave hi hj hne hshort
    have hfull' : HoldsFullBody mem' j := by
      unfold HoldsFullBody
      rw [hsame.read32 (a := slotStart j) (by lia) (by lia),
        hsame.read32 (a := slotStart j + 20) (by lia) (by lia)]
      exact hfull
    exact lengthBytes_of_borderWord hsave hi hadj (borderWord_of_loadInto hfull hfull' (hload _ _))
  · rintro ⟨hshort, hborder⟩
    refine ⟨mem', hsave, fun nameOut wordsOut => ?_, (writesOwnSlot_iff hi hname).mpr hshort⟩
    symm
    refine loadInto_congr ?_ (fun hfull => ?_) nameOut wordsOut
    · exact fun b hlo hhi => (save_sameSlot hsave hi hj hne hshort b hlo hhi).symm
    · exact (borderWord_save hsave hi hj hne hshort fun hadj => hborder hadj hfull).symm

theorem slotIndependent_first :
    SlotIndependent 0 1 [0x61#8] [1#32] (fun _ => 0#8) :=
  (slotIndependent_iff (by decide) (by decide) (by decide) (by decide) (by decide) _).mpr
    ⟨by decide, fun hadj => absurd hadj (by decide)⟩

/-- In a blank store, the end of a 64-word body in slot 0 is a name length in slot 1. -/
theorem not_slotIndependent_full :
    ¬ SlotIndependent 0 1 [0x61#8] (List.replicate 63 0#32 ++ [0x100#32]) (fun _ => 0#8) := by
  rintro ⟨mem', hsave, hload, _⟩
  have hempty : (loadInto 1 [] [] fun _ => 0#8).1 = .error .notFound := by
    decide +kernel
  have hfound : (loadInto 1 [] [] (pokeAll (savePokes 0 [0x61#8]
      (List.replicate 63 0#32 ++ [0x100#32])) fun _ => 0#8)).1 = .ok 0 := by
    decide +kernel
  rw [← save_eq_pokeAll hsave, hload, hempty] at hfound
  cases hfound

/-!
## Round trips
-/

theorem loadInto_of_save {idx : Nat} {name : List Byte} {words : List Word} {mem mem' : Mem}
    (h : save idx name words mem = .ok mem') (hidx : idx < maxPrograms) (hname : name ≠ [])
    {nameOut : List Byte} (hnameOut : name.length ≤ nameOut.length)
    {wordsOut : List Word} (hwordsOut : words.length ≤ wordsOut.length) :
    loadInto idx nameOut wordsOut mem' =
      (.ok words.length, name ++ nameOut.drop name.length,
        words ++ wordsOut.drop words.length) := by
  obtain ⟨hnameLen, hwordsLen, _⟩ := save_ok h
  have hcontains := slotContains_save h hidx
  have hslot : slotWords = 64 := rfl
  have hmax : nameMax = 16 := rfl
  have hpos := List.length_pos_iff.mpr hname
  have hbytes : (List.range name.length).map (fun i =>
      (mem'.read32 (BitVec.ofNat 32 (slotStart idx + 4 + i))).setWidth 8) = name := by
    apply List.ext_getElem
    · simp
    · intro i hi hi'
      rw [List.getElem_map, List.getElem_range, Memory.read32_setWidth,
        hcontains.name i hi', List.getD_eq_getElem?_getD, List.getElem?_eq_getElem hi']
      rfl
  unfold loadInto
  simp only [slotAddr_eq]
  rw [show slotStart idx + 4 + nameMax = slotStart idx + 20 from rfl, hcontains.length,
    hcontains.count, BitVec.toNat_ofNat, BitVec.toNat_ofNat, Nat.mod_eq_of_lt (by lia),
    Nat.mod_eq_of_lt (by lia), if_neg (by lia), if_neg (by lia), Nat.min_eq_left hnameOut,
    hbytes, show slotStart idx + 20 + 4 = slotStart idx + 24 from rfl, hcontains.body]

theorem exportFn_of_hasFn {c : Compiler} {name : List Byte} {body : List Word}
    {capacity : Nat} (h : c.HasFn name body) (hcapacity : body.length ≤ capacity) :
    c.exportFn name capacity = some body := by
  rcases h with ⟨i, hfind, rfl⟩
  unfold Compiler.exportFn
  rw [hfind]
  exact if_pos hcapacity

theorem exportFn_setFn_of_ne {c : Compiler} {name : List Byte} {i : Fin maxFns}
    {slot : FnSlot} (hfree : (c.fns i).name.bytes.length = 0) (hne : slot.name.bytes ≠ name)
    (capacity : Nat) :
    (c.setFn i slot).exportFn name capacity = c.exportFn name capacity := by
  unfold Compiler.exportFn
  rw [findFn_setFn_of_ne hfree hne]
  cases hfind : c.findFn name with
  | none => rfl
  | some j =>
      dsimp only
      rw [fns_of_findFn hfree hfind]

/-- A compiler that lacks the name and has room takes the function in, beside those
that it has. -/
theorem importFn_exportFn {c : Compiler} {name : List Byte} {body : List Word}
    (hname : name ≠ []) (hlen : name.length ≤ nameMax) (hbody : body.length ≤ fnBodyWords)
    (hlacks : c.findFn name = none) (hfree : exists i, (c.fns i).name.bytes.length = 0) :
    exists c', c.importFn name body = .ok c' ∧
      (forall capacity, body.length ≤ capacity -> c'.exportFn name capacity = some body) ∧
      forall other, other ≠ name -> forall capacity,
        c'.exportFn other capacity = c.exportFn other capacity := by
  rcases @importFn_of_free c ⟨name, hlen⟩ body hlacks hfree hbody with ⟨i, hi, himport⟩
  rcases importFn_ok himport with ⟨nb, k, hwords, halloc, hset⟩
  have hslot := body_of_setFn_eq hi hname hset
  have hnb : nb = ⟨name, hlen⟩ := (congrArg FnSlot.name hslot).symm
  subst hnb
  refine ⟨_, himport, ?_, ?_⟩
  · intro capacity hcapacity
    rw [hset]
    exact exportFn_of_hasFn (hasFn_setFn halloc rfl hname) hcapacity
  · intro other hother capacity
    exact exportFn_setFn_of_ne hi (Ne.symm hother) capacity

/-- What is saved is loaded again from the same slot, whatever memory held before; and a
function comes back from the store as it was exported. -/
theorem persistence_roundTrip {idx : Nat} (hidx : idx < maxPrograms) {name : List Byte}
    (hname : name ≠ []) (hlen : name.length ≤ nameMax) (mem : Mem) :
    (forall words nameOut wordsOut, words.length ≤ slotWords ->
        name.length ≤ nameOut.length -> words.length ≤ wordsOut.length ->
        exists mem' nameOut' wordsOut', save idx name words mem = .ok mem' ∧
          loadInto idx nameOut wordsOut mem' = (.ok words.length, nameOut', wordsOut') ∧
          nameOut'.take name.length = name ∧ wordsOut'.take words.length = words) ∧
      (forall (c c' : Compiler) body outLen nameOut wordsOut,
        c.exportFn name outLen = some body ->
        name.length ≤ nameOut.length -> body.length ≤ wordsOut.length ->
        c'.findFn name = none -> (exists i, (c'.fns i).name.bytes.length = 0) ->
        exists mem' count nameOut' wordsOut' c'', save idx name body mem = .ok mem' ∧
          loadInto idx nameOut wordsOut mem' = (.ok count, nameOut', wordsOut') ∧
          c'.importFn (nameOut'.take name.length) (wordsOut'.take count) = .ok c'' ∧
          (forall capacity, body.length ≤ capacity -> c''.exportFn name capacity = some body) ∧
          forall other, other ≠ name -> forall capacity,
            c''.exportFn other capacity = c'.exportFn other capacity) := by
  constructor
  · intro words nameOut wordsOut hwords hnameOut hwordsOut
    rcases exists_save hlen hwords idx mem with ⟨mem', hsave⟩
    exact ⟨mem', _, _, hsave, loadInto_of_save hsave hidx hname hnameOut hwordsOut,
      List.take_left, List.take_left⟩
  · intro c c' body outLen nameOut wordsOut hexport hnameOut hwordsOut hlacks hfree
    have hbody := length_exportFn hexport
    have hslot : fnBodyWords ≤ slotWords := by decide
    rcases exists_save hlen (hbody.trans hslot) idx mem with ⟨mem', hsave⟩
    rcases importFn_exportFn hname hlen hbody hlacks hfree with ⟨c'', himport, hown, hothers⟩
    refine ⟨mem', _, _, _, c'', hsave,
      loadInto_of_save hsave hidx hname hnameOut hwordsOut, ?_, hown, hothers⟩
    rw [List.take_left, List.take_left]
    exact himport

/-- One function, with a name of sixteen bytes. -/
def longNamed : Compiler :=
  Compiler.new.setFn ⟨0, by decide⟩ ⟨⟨List.replicate 16 0x61#8, by decide⟩, [1#32, 2#32], by decide⟩

/-- The word of the last byte of the name reaches into the count. -/
theorem persistence_roundTrip_longName :
    (exists mem' nameOut' wordsOut',
      save 7 (List.replicate 16 0x61#8) [1#32, 2#32] (fun _ => 0xFF#8) = .ok mem' ∧
        loadInto 7 (List.replicate 16 0#8) [0#32, 0#32, 0#32] mem' =
          (.ok 2, nameOut', wordsOut') ∧
        nameOut'.take 16 = List.replicate 16 0x61#8 ∧ wordsOut'.take 2 = [1#32, 2#32]) ∧
    longNamed.exportFn (List.replicate 16 0x61#8) 64 = some [1#32, 2#32] ∧
    exists mem' count nameOut' wordsOut' c,
      save 7 (List.replicate 16 0x61#8) [1#32, 2#32] (fun _ => 0xFF#8) = .ok mem' ∧
        loadInto 7 (List.replicate 16 0#8) [0#32, 0#32, 0#32] mem' =
          (.ok count, nameOut', wordsOut') ∧
        Compiler.new.importFn (nameOut'.take 16) (wordsOut'.take count) = .ok c ∧
        c.exportFn (List.replicate 16 0x61#8) 64 = some [1#32, 2#32] := by
  have hexport : longNamed.exportFn (List.replicate 16 0x61#8) 64 = some [1#32, 2#32] := by
    decide
  have hfree : exists i, (Compiler.new.fns i).name.bytes.length = 0 :=
    ⟨⟨0, by decide⟩, rfl⟩
  rcases persistence_roundTrip (show 7 < maxPrograms by decide)
    (show List.replicate 16 0x61#8 ≠ [] by decide) (by decide) (fun _ => 0xFF#8) with
    ⟨hslot, hfunction⟩
  rcases hfunction longNamed Compiler.new _ 64 (List.replicate 16 0#8) [0#32, 0#32, 0#32] hexport
    (by decide) (by decide) (by decide) hfree with
    ⟨mem', count, nameOut', wordsOut', c, hsave, hload, himport, hown, _⟩
  exact ⟨hslot [1#32, 2#32] (List.replicate 16 0#8) [0#32, 0#32, 0#32] (by decide) (by decide)
    (by decide), hexport, mem', count, nameOut', wordsOut', c, hsave, hload, himport,
    hown 64 (by decide)⟩

end Drivers
end HolyRust
