import HolyRust.Capabilities.RangeCheck

/-!
# What a contiguous range check ought to decide

The byte-wise meaning of a range under `checkAccess`, as intervals of the two
address maps, and the exact set of requests on which
`verifyRangeContiguous` decides it.
-/

namespace HolyRust
namespace Capabilities

/-!
## The access rule as intervals
-/

theorem inRange_eq_true_iff {lo hi : Nat} {addr : Word} :
    inRange lo hi addr = true ↔ lo ≤ addr.toNat ∧ addr.toNat ≤ hi := by
  unfold inRange
  simp

theorem accessible_iff {t : Target} {r : Registry} (addr : Word)
    (hsuper : isSuperuserActive r = false) :
    Accessible t r addr ↔
      (exists cap, addrToCapId t addr = some cap ∧ isClaimed r cap.index = true) ∨
        (addrToCapId t addr = none ∧ isRamFlash t addr = true) := by
  unfold Accessible checkAccess
  rw [hsuper]
  cases hcap : addrToCapId t addr with
  | none => simp
  | some cap => cases hclaimed : isClaimed r cap.index <;> simp [hclaimed]

theorem mem_of_addrLookup {map : List (Nat × Nat × CapId)} {addr : Word} {cap : CapId}
    (h : addrLookup map addr = some cap) :
    exists lo hi, (lo, hi, cap) ∈ map ∧ lo ≤ addr.toNat ∧ addr.toNat ≤ hi := by
  unfold addrLookup at h
  rcases Option.map_eq_some_iff.mp h with ⟨⟨lo, hi, cap'⟩, hfind, rfl⟩
  exact ⟨lo, hi, List.mem_of_find?_eq_some hfind,
    inRange_eq_true_iff.mp (by simpa using List.find?_some hfind)⟩

theorem addrLookup_eq_none {map : List (Nat × Nat × CapId)} {addr : Word}
    (h : forall row, row ∈ map -> ¬ (row.1 ≤ addr.toNat ∧ addr.toNat ≤ row.2.1)) :
    addrLookup map addr = none := by
  unfold addrLookup
  rw [Option.map_eq_none_iff, List.find?_eq_none]
  intro row hrow
  rw [inRange_eq_true_iff]
  exact h row hrow

/-- The addresses a target's access rule can ever accept without SuperUser. -/
def OpenAddr : Target -> Nat -> Prop
  | .arm, a =>
      (0x08000000 ≤ a ∧ a ≤ 0x080FFFFF) ∨ (0x20000000 ≤ a ∧ a ≤ 0x2001C000) ∨
        (0x40000000 ≤ a ∧ a ≤ 0x400003FF) ∨ (0x40002000 ≤ a ∧ a ≤ 0x400023FF) ∨
        (0x40011000 ≤ a ∧ a ≤ 0x400113FF) ∨ (0x40013000 ≤ a ∧ a ≤ 0x400133FF) ∨
        (0x40015400 ≤ a ∧ a ≤ 0x400157FF) ∨ (0x40020000 ≤ a ∧ a ≤ 0x400207FF)
  | .riscv32, a =>
      (0x20000000 ≤ a ∧ a ≤ 0x2000FFFF) ∨ (0x80000000 ≤ a ∧ a ≤ 0x8000FFFF) ∨
        (0x10000000 ≤ a ∧ a ≤ 0x10000FFF) ∨ (0x10012000 ≤ a ∧ a ≤ 0x10015FFF) ∨
        (0x10020000 ≤ a ∧ a ≤ 0x10020FFF)

theorem openAddr_of_accessible {t : Target} {r : Registry} {addr : Word}
    (hsuper : isSuperuserActive r = false) (h : Accessible t r addr) :
    OpenAddr t addr.toNat := by
  rcases (accessible_iff addr hsuper).mp h with ⟨cap, hcap, _⟩ | ⟨_, hram⟩
  · cases t with
    | arm =>
        rcases mem_of_addrLookup hcap with ⟨lo, hi, hmem, hlo, hhi⟩
        simp only [armAddrMap, List.mem_cons, List.not_mem_nil, or_false,
          Prod.mk.injEq] at hmem
        unfold OpenAddr
        omega
    | riscv32 =>
        rcases mem_of_addrLookup hcap with ⟨lo, hi, hmem, hlo, hhi⟩
        simp only [riscvAddrMap, List.mem_cons, List.not_mem_nil, or_false,
          Prod.mk.injEq] at hmem
        unfold OpenAddr
        omega
  · cases t with
    | arm =>
        simp only [isRamFlash, Bool.or_eq_true, inRange_eq_true_iff] at hram
        unfold OpenAddr
        omega
    | riscv32 =>
        simp only [isRamFlash, Bool.or_eq_true, inRange_eq_true_iff] at hram
        unfold OpenAddr
        omega

/-!
## Blocks at the end of a window

The last block of a 256-block window is open only at the end of ARM flash, and
the window after that one is closed.  So the scalar fallback, which samples both
sides of a window border, never accepts.
-/

theorem blockAddr_toNat (addr : Word) (offset : Nat) :
    (blockAddr addr offset).toNat = (addr.toNat + 4096 * offset) % 2 ^ 32 := by
  unfold blockAddr
  rw [BitVec.toNat_add, BitVec.toNat_mul, BitVec.toNat_ofNat, BitVec.toNat_ofNat]
  omega

theorem not_openAddr_window_border {t : Target} {a b : Nat} (ha : a < 2 ^ 32)
    (hlast : a / 4096 % 256 = 255) (hnext : b = (a + 4096) % 2 ^ 32) :
    ¬ (OpenAddr t a ∧ OpenAddr t b) := by
  rintro ⟨hopen, hopen'⟩
  cases t with
  | arm =>
      unfold OpenAddr at hopen hopen'
      omega
  | riscv32 =>
      unfold OpenAddr at hopen hopen'
      omega

theorem accessible_of_checkBlocks {t : Target} {r : Registry} {addr : Word}
    {n offset j : Nat} (h : checkBlocks t r addr n offset = .ok ())
    (hlo : offset ≤ j) (hhi : j < offset + n) :
    Accessible t r (blockAddr addr j) := by
  induction n generalizing offset with
  | zero => lia
  | succ n ih =>
      simp only [checkBlocks] at h
      cases hcheck : checkAccess t r (blockAddr addr offset) with
      | error cap => simp [hcheck] at h
      | ok u =>
          rw [hcheck] at h
          by_cases heq : offset = j
          · rw [← heq]
            exact hcheck
          · exact ih h (by lia) (by lia)

/-- The request fits one mask: the fast path is taken. -/
def SingleWindow (addr : Word) (len : Nat) : Prop :=
  1 ≤ len ∧ len ≤ 256 ∧ blockOf addr + len ≤ windowBase (blockOf addr) + 256

instance (addr : Word) (len : Nat) : Decidable (SingleWindow addr len) :=
  inferInstanceAs (Decidable (_ ∧ _))

theorem buildMask_of_singleWindow {addr : Word} {len : Nat}
    (h : SingleWindow addr len) :
    buildMask addr len =
      some (markBlocks (windowBase (blockOf addr)) len (blockOf addr)
        Mask256.zero) := by
  rcases h with ⟨hpos, hle, hfits⟩
  unfold buildMask
  rw [if_neg (by lia)]
  exact if_neg (by lia)

theorem buildMask_eq_none {addr : Word} {len : Nat} (h : ¬ SingleWindow addr len) :
    buildMask addr len = none := by
  unfold SingleWindow at h
  unfold buildMask
  by_cases hlen : len = 0 ∨ 256 < len
  · exact if_pos hlen
  · rw [if_neg hlen]
    exact if_pos (by lia)

theorem checkBlocks_ne_ok {t : Target} {r : Registry} {addr : Word} {len : Nat}
    (hsuper : isSuperuserActive r = false) (hlen : len ≠ 0)
    (hwindow : ¬ SingleWindow addr len) :
    checkBlocks t r addr len 0 ≠ .ok () := by
  intro hok
  have haddr := addr.isLt
  unfold SingleWindow at hwindow
  have hj : exists j, j ≤ 255 ∧ j + 1 < len ∧ (blockOf addr + j) % 256 = 255 := by
    exists 255 - blockOf addr % 256
    unfold windowBase at hwindow
    lia
  rcases hj with ⟨j, hj255, hjlen, hjlast⟩
  have hhere := openAddr_of_accessible hsuper
    (accessible_of_checkBlocks (j := j) hok (by lia) (by lia))
  have hnext := openAddr_of_accessible hsuper
    (accessible_of_checkBlocks (j := j + 1) hok (by lia) (by lia))
  rw [blockAddr_toNat] at hhere hnext
  unfold blockOf at hjlast
  exact not_openAddr_window_border (Nat.mod_lt _ (by decide)) (by lia) (by lia)
    ⟨hhere, hnext⟩

/-!
## Open ranges
-/

/-- Every byte of the range may be accessed, and the range stays in the address space. -/
def RangeAccessible (t : Target) (r : Registry) (addr : Word) (len : Nat) : Prop :=
  addr.toNat + 4096 * len ≤ 2 ^ 32 ∧
    forall b, b < 4096 * len -> Accessible t r (addr + BitVec.ofNat 32 b)

/-- `[a, a + n)` lies in `lo..=hi`. -/
def Within (lo hi a n : Nat) : Prop := lo ≤ a ∧ a + n ≤ hi + 1

/-- A RISC-V peripheral page whose resource is claimed. -/
def ClaimedPage (r : Registry) (page : Nat) : Prop :=
  exists cap, addrToCapId .riscv32 (BitVec.ofNat 32 (4096 * page)) = some cap ∧
    isClaimed r cap.index = true

/-- The range lies in one RAM or flash window, or (RISC-V) on claimed peripheral
pages only.  An ARM peripheral is too small to hold a block. -/
def OpenRange : Target -> Registry -> Word -> Nat -> Prop
  | .arm, _, addr, len =>
      Within 0x08000000 0x080FFFFF addr.toNat (4096 * len) ∨
        Within 0x20000000 0x2001C000 addr.toNat (4096 * len)
  | .riscv32, r, addr, len =>
      Within 0x20000000 0x2000FFFF addr.toNat (4096 * len) ∨
        Within 0x80000000 0x8000FFFF addr.toNat (4096 * len) ∨
        forall page, addr.toNat / 4096 ≤ page -> 4096 * page < addr.toNat + 4096 * len ->
          ClaimedPage r page

theorem byte_toNat {addr : Word} {b n : Nat} (hfits : addr.toNat + n ≤ 2 ^ 32)
    (hb : b < n) :
    (addr + BitVec.ofNat 32 b).toNat = addr.toNat + b := by
  rw [BitVec.toNat_add, BitVec.toNat_ofNat]
  omega

theorem openAddr_of_rangeAccessible {t : Target} {r : Registry} {addr : Word}
    {len : Nat} (hsuper : isSuperuserActive r = false)
    (h : RangeAccessible t r addr len) :
    forall a, addr.toNat ≤ a -> a < addr.toNat + 4096 * len -> OpenAddr t a := by
  intro a hlo hhi
  have hopen := openAddr_of_accessible hsuper (h.right (a - addr.toNat) (by lia))
  rw [byte_toNat h.left (by lia)] at hopen
  rwa [Nat.add_sub_cancel' hlo] at hopen

theorem accessible_of_ramFlash {t : Target} {r : Registry} {addr : Word}
    (hcap : addrToCapId t addr = none) (hram : isRamFlash t addr = true) :
    Accessible t r addr := by
  unfold Accessible checkAccess
  simp [hcap, hram]

theorem openRange_of_rangeAccessible_arm {r : Registry} {addr : Word} {len : Nat}
    (hsuper : isSuperuserActive r = false) (hlen : len ≠ 0)
    (h : RangeAccessible .arm r addr len) :
    OpenRange .arm r addr len := by
  have hopen := openAddr_of_rangeAccessible hsuper h
  have hfirst := hopen addr.toNat (by lia) (by lia)
  have hflash := hopen 0x08100000
  have hsram := hopen 0x2001C001
  have htimer := hopen 0x40000400
  have hdma := hopen 0x40002400
  have huart := hopen 0x40011400
  have hspi := hopen 0x40013400
  have hi2c := hopen 0x40015800
  have hgpio := hopen 0x40020800
  simp only [OpenAddr] at hfirst hflash hsram htimer hdma huart hspi hi2c hgpio
  unfold OpenRange Within
  omega

/-- No peripheral is mapped into RAM or flash. -/
theorem addrToCapId_eq_none_of_ramFlash {t : Target} {a : Word} (h : isRamFlash t a = true) :
    addrToCapId t a = none := by
  cases t with
  | arm =>
      apply addrLookup_eq_none
      intro row hrow
      simp only [isRamFlash, Bool.or_eq_true, inRange_eq_true_iff] at h
      simp only [armAddrMap, List.mem_cons, List.not_mem_nil, or_false] at hrow
      rcases hrow with rfl | rfl | rfl | rfl | rfl | rfl | rfl <;> lia
  | riscv32 =>
      apply addrLookup_eq_none
      intro row hrow
      simp only [isRamFlash, Bool.or_eq_true, inRange_eq_true_iff] at h
      simp only [riscvAddrMap, List.mem_cons, List.not_mem_nil, or_false] at hrow
      rcases hrow with rfl | rfl | rfl | rfl | rfl | rfl <;> lia

/-- A range inside one window of RAM or flash. -/
theorem rangeAccessible_of_within {t : Target} {r : Registry} {addr : Word} {len lo hi : Nat}
    (hhi : hi < 2 ^ 32) (hwindow : forall a, inRange lo hi a = true -> isRamFlash t a = true)
    (h : Within lo hi addr.toNat (4096 * len)) : RangeAccessible t r addr len := by
  have hfits : addr.toNat + 4096 * len ≤ 2 ^ 32 := by
    unfold Within at h
    lia
  constructor
  · exact hfits
  · intro b hb
    have hram : isRamFlash t (addr + BitVec.ofNat 32 b) = true := by
      apply hwindow
      rw [inRange_eq_true_iff, byte_toNat hfits hb]
      unfold Within at h
      lia
    exact accessible_of_ramFlash (addrToCapId_eq_none_of_ramFlash hram) hram

theorem rangeAccessible_of_openRange_arm {r : Registry} {addr : Word} {len : Nat}
    (h : OpenRange .arm r addr len) :
    RangeAccessible .arm r addr len := by
  rcases h with h | h
  · refine rangeAccessible_of_within (by decide) ?_ h
    intro a ha
    simp only [isRamFlash, ha, Bool.true_or]
  · refine rangeAccessible_of_within (by decide) ?_ h
    intro a ha
    simp only [isRamFlash, ha, Bool.or_true]

theorem addrLookup_congr {map : List (Nat × Nat × CapId)} {a b : Word}
    (h : forall row, row ∈ map ->
      inRange row.1 row.2.1 a = inRange row.1 row.2.1 b) :
    addrLookup map a = addrLookup map b := by
  unfold addrLookup
  induction map with
  | nil => rfl
  | cons row rest ih =>
      have hrow := h row List.mem_cons_self
      have hrest := ih (fun row' hmem => h row' (List.mem_cons_of_mem row hmem))
      simp only [List.find?_cons, hrow]
      cases inRange row.1 row.2.1 b with
      | true => rfl
      | false => exact hrest

theorem inRange_page {lo hi page : Nat} {a : Word} (hlo : lo % 4096 = 0)
    (hhi : hi % 4096 = 4095) (hpage : a.toNat / 4096 = page) :
    inRange lo hi (BitVec.ofNat 32 (4096 * page)) = inRange lo hi a := by
  have ha := a.isLt
  apply Bool.eq_iff_iff.mpr
  rw [inRange_eq_true_iff, inRange_eq_true_iff, BitVec.toNat_ofNat,
    Nat.mod_eq_of_lt (by lia)]
  lia

/-- RISC-V peripherals are whole pages. -/
theorem addrToCapId_page {page : Nat} {a : Word} (hpage : a.toNat / 4096 = page) :
    addrToCapId .riscv32 (BitVec.ofNat 32 (4096 * page)) = addrToCapId .riscv32 a := by
  apply addrLookup_congr
  intro row hrow
  simp only [riscvAddrMap, List.mem_cons, List.not_mem_nil, or_false] at hrow
  rcases hrow with rfl | rfl | rfl | rfl | rfl | rfl <;>
    exact inRange_page (by decide) (by decide) hpage

theorem accessible_of_claimedPage {r : Registry} {page : Nat} {a : Word}
    (hpage : a.toNat / 4096 = page) (h : ClaimedPage r page) :
    Accessible .riscv32 r a := by
  rcases h with ⟨cap, hcap, hclaimed⟩
  rw [addrToCapId_page hpage] at hcap
  unfold Accessible checkAccess
  simp [hcap, hclaimed]

theorem claimedPage_of_accessible {r : Registry} {page : Nat} {a : Word}
    (hsuper : isSuperuserActive r = false) (hpage : a.toNat / 4096 = page)
    (hhi : a.toNat ≤ 0x10020FFF) (h : Accessible .riscv32 r a) :
    ClaimedPage r page := by
  rcases (accessible_iff a hsuper).mp h with ⟨cap, hcap, hclaimed⟩ | ⟨_, hram⟩
  · exact ⟨cap, by rw [addrToCapId_page hpage, hcap], hclaimed⟩
  · simp only [isRamFlash, Bool.or_eq_true, inRange_eq_true_iff] at hram
    lia

theorem openRange_of_rangeAccessible_riscv32 {r : Registry} {addr : Word} {len : Nat}
    (hsuper : isSuperuserActive r = false) (hlen : len ≠ 0)
    (h : RangeAccessible .riscv32 r addr len) :
    OpenRange .riscv32 r addr len := by
  have hopen := openAddr_of_rangeAccessible hsuper h
  have hfirst := hopen addr.toNat (by lia) (by lia)
  have hflash := hopen 0x20010000
  have hram := hopen 0x80010000
  have hdma := hopen 0x10001000
  have hbank := hopen 0x10016000
  have hi2c := hopen 0x10021000
  simp only [OpenAddr] at hfirst hflash hram hdma hbank hi2c
  by_cases hperipheral : 0x10000000 ≤ addr.toNat ∧
      addr.toNat + 4096 * len ≤ 0x10021000
  · refine Or.inr (Or.inr ?_)
    intro page hlo hhi
    have hbyte : exists b, b < 4096 * len ∧ (addr.toNat + b) / 4096 = page := by
      by_cases hstart : addr.toNat ≤ 4096 * page
      · exact ⟨4096 * page - addr.toNat, by lia, by lia⟩
      · exact ⟨0, by lia, by lia⟩
    rcases hbyte with ⟨b, hb, hpage⟩
    have htoNat := byte_toNat h.left hb
    exact claimedPage_of_accessible hsuper (by rw [htoNat, hpage]) (by lia)
      (h.right b hb)
  · unfold OpenRange Within
    omega

/-- There is no peripheral at the end of the address space, so claimed pages end before it. -/
theorem rangeAccessible_of_claimedPages {r : Registry} {addr : Word} {len : Nat}
    (h : forall page, addr.toNat / 4096 ≤ page -> 4096 * page < addr.toNat + 4096 * len ->
      ClaimedPage r page) : RangeAccessible .riscv32 r addr len := by
  have haddr := addr.isLt
  have hfits : addr.toNat + 4096 * len ≤ 2 ^ 32 := by
    apply Nat.le_of_not_lt
    intro hover
    rcases h (2 ^ 20) (by lia) (by lia) with ⟨cap, hcap, _⟩
    have hnone : addrToCapId .riscv32 (BitVec.ofNat 32 (4096 * 2 ^ 20)) = none := by
      decide +kernel
    rw [hnone] at hcap
    cases hcap
  constructor
  · exact hfits
  · intro b hb
    have hbyte := byte_toNat hfits hb
    refine accessible_of_claimedPage rfl ?_
    rw [hbyte]
    exact h _ (by lia) (by lia)

theorem rangeAccessible_of_openRange_riscv32 {r : Registry} {addr : Word} {len : Nat}
    (h : OpenRange .riscv32 r addr len) :
    RangeAccessible .riscv32 r addr len := by
  rcases h with h | h | h
  · refine rangeAccessible_of_within (by decide) ?_ h
    intro a ha
    simp only [isRamFlash, ha, Bool.true_or]
  · refine rangeAccessible_of_within (by decide) ?_ h
    intro a ha
    simp only [isRamFlash, ha, Bool.or_true]
  · exact rangeAccessible_of_claimedPages h

theorem rangeAccessible_iff_openRange {t : Target} {r : Registry} {addr : Word}
    {len : Nat} (hsuper : isSuperuserActive r = false) (hlen : len ≠ 0) :
    RangeAccessible t r addr len ↔ OpenRange t r addr len := by
  cases t with
  | arm =>
      exact ⟨openRange_of_rangeAccessible_arm hsuper hlen,
        rangeAccessible_of_openRange_arm⟩
  | riscv32 =>
      exact ⟨openRange_of_rangeAccessible_riscv32 hsuper hlen,
        rangeAccessible_of_openRange_riscv32⟩

/-!
## Agreement of the range check
-/

theorem not_openRange_of_not_singleWindow {t : Target} {r : Registry} {addr : Word}
    {len : Nat} (hsuper : isSuperuserActive r = false) (hlen : len ≠ 0)
    (hwindow : ¬ SingleWindow addr len) :
    ¬ RangeAccessible t r addr len := by
  intro h
  have haddr := addr.isLt
  have hopen := openAddr_of_rangeAccessible hsuper h
  unfold SingleWindow blockOf windowBase at hwindow
  have hj : exists j, j + 1 < len ∧ (addr.toNat + 4096 * j) / 4096 % 256 = 255 := by
    exists 255 - addr.toNat / 4096 % 256
    lia
  rcases hj with ⟨j, hjlen, hjlast⟩
  have hfits := h.left
  exact not_openAddr_window_border (by lia) hjlast (Nat.mod_eq_of_lt (by lia)).symm
    ⟨hopen (addr.toNat + 4096 * j) (by lia) (by lia),
      hopen (addr.toNat + 4096 * j + 4096) (by lia) (by lia)⟩

theorem verifyRangeContiguous_fast {t : Target} {caps : Nat -> Word} {addr : Word}
    {len : Nat} (hsuper : isSuperuserActive (registryOf caps) = false)
    (hwindow : SingleWindow addr len) :
    ((verifyRangeContiguous t caps addr len).1 = .ok () ↔
        BlocksMarked caps (blockOf addr) len) ∧
      (verifyRangeContiguous t caps addr len).2 =
        (verifyVector caps (markBlocks (windowBase (blockOf addr)) len (blockOf addr)
          Mask256.zero) (windowBase (blockOf addr) / 32)).2 := by
  have hlen : len ≠ 0 := by
    have hpos := hwindow.left
    lia
  unfold verifyRangeContiguous
  rw [if_neg hlen, hsuper, if_neg Bool.false_ne_true,
    buildMask_of_singleWindow hwindow,
    ← verifyVector_markBlocks caps hwindow.right.right]
  dsimp only
  generalize verifyVector caps (markBlocks (windowBase (blockOf addr)) len (blockOf addr)
    Mask256.zero) (windowBase (blockOf addr) / 32) = answer
  rcases answer with ⟨accepted, reads⟩
  cases accepted <;> simp

theorem verifyRangeContiguous_scalar {t : Target} {caps : Nat -> Word} {addr : Word}
    {len : Nat} (hsuper : isSuperuserActive (registryOf caps) = false)
    (hlen : len ≠ 0) (hwindow : ¬ SingleWindow addr len) :
    verifyRangeContiguous t caps addr len =
      (checkBlocks t (registryOf caps) addr len 0, []) := by
  unfold verifyRangeContiguous
  rw [if_neg hlen, hsuper, if_neg Bool.false_ne_true, buildMask_eq_none hwindow]

/-- What the range check has to decide. -/
def RangeCheckExact (t : Target) (caps : Nat -> Word) (addr : Word) (len : Nat) : Prop :=
  (verifyRangeContiguous t caps addr len).1 = .ok () ↔
    RangeAccessible t (registryOf caps) addr len

theorem rangeCheckExact_iff_openRange {t : Target} {caps : Nat -> Word} {addr : Word} {len : Nat}
    (hsuper : isSuperuserActive (registryOf caps) = false) :
    RangeCheckExact t caps addr len ↔
      len = 0 ∨ ¬ SingleWindow addr len ∨
        (BlocksMarked caps (blockOf addr) len ↔
          OpenRange t (registryOf caps) addr len) := by
  have haddr := addr.isLt
  unfold RangeCheckExact
  by_cases hlen : len = 0
  · subst hlen
    simp [verifyRangeContiguous, RangeAccessible]
    lia
  · by_cases hwindow : SingleWindow addr len
    · rw [(verifyRangeContiguous_fast hsuper hwindow).left,
        rangeAccessible_iff_openRange hsuper hlen]
      simp [hlen, hwindow]
    · have hcheck := checkBlocks_ne_ok (t := t) hsuper hlen hwindow
      have hrange := not_openRange_of_not_singleWindow (t := t) hsuper hlen hwindow
      rw [verifyRangeContiguous_scalar hsuper hlen hwindow]
      simp [hcheck, hrange, hwindow]

/-- The check is exact on empty requests, on requests that leave their window, and where the
bits of the requested blocks happen to agree with the address map of the target. -/
theorem rangeCheckExact_iff (t : Target) (caps : Nat -> Word) (addr : Word) (len : Nat)
    (hsuper : isSuperuserActive (registryOf caps) = false) :
    RangeCheckExact t caps addr len ↔
      len = 0 ∨ ¬ SingleWindow addr len ∨
        (t = .arm ∧ (BlocksMarked caps (blockOf addr) len ↔
          Within 0x08000000 0x080FFFFF addr.toNat (4096 * len) ∨
            Within 0x20000000 0x2001C000 addr.toNat (4096 * len))) ∨
        (t = .riscv32 ∧ (BlocksMarked caps (blockOf addr) len ↔
          Within 0x20000000 0x2000FFFF addr.toNat (4096 * len) ∨
            Within 0x80000000 0x8000FFFF addr.toNat (4096 * len) ∨
            forall page, addr.toNat / 4096 ≤ page -> 4096 * page < addr.toNat + 4096 * len ->
              ClaimedPage (registryOf caps) page)) := by
  rw [rangeCheckExact_iff_openRange hsuper]
  cases t with
  | arm => simp [OpenRange]
  | riscv32 => simp [OpenRange]

/-- The registry words with only GPIOA claimed. -/
def onlyGpioA : Nat -> Word := fun i => if i = 0 then 1#32 else 0#32

/-- Nothing is mapped there, and no bit is set that the mask could take for the block. -/
theorem rangeCheckExact_unmapped :
    isSuperuserActive (registryOf onlyGpioA) = false ∧
      RangeCheckExact .arm onlyGpioA 0x50000000#32 1 := by
  have hsuper : isSuperuserActive (registryOf onlyGpioA) = false := by decide +kernel
  have hunmarked : ¬ BlocksMarked onlyGpioA (blockOf 0x50000000#32) 1 := by
    intro hmarked
    exact absurd (hmarked _ (Nat.le_refl _) (Nat.lt_succ_self _)) (by decide +kernel)
  have hclosed : ¬ (Within 0x08000000 0x080FFFFF (0x50000000#32).toNat (4096 * 1) ∨
      Within 0x20000000 0x2001C000 (0x50000000#32).toNat (4096 * 1)) := by
    unfold Within
    decide
  exact ⟨hsuper, (rangeCheckExact_iff .arm onlyGpioA 0x50000000#32 1 hsuper).mpr
    (.inr (.inr (.inl ⟨rfl, iff_of_false hunmarked hclosed⟩)))⟩

/-- Bit 0 is GPIOA to the registry and the block at address 0 to the mask. -/
theorem not_rangeCheckExact_zero :
    isSuperuserActive (registryOf onlyGpioA) = false ∧
      ¬ RangeCheckExact .arm onlyGpioA 0#32 1 := by
  constructor
  · decide +kernel
  · intro h
    have hok : (verifyRangeContiguous .arm onlyGpioA 0#32 1).1 = .ok () := by
      decide +kernel
    have hrefused : ¬ Accessible .arm (registryOf onlyGpioA) (0#32 + BitVec.ofNat 32 0) := by
      decide +kernel
    exact hrefused ((h.mp hok).right 0 (by decide))

end Capabilities
end HolyRust
