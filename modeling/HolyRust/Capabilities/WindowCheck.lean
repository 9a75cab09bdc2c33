import HolyRust.Capabilities.OpenRange

/-!
# Window-decomposed range checks

The `hros_cap` crate keeps its own `verify_range_contiguous`.  It walks the
256-block windows of a request and compares one mask per window, again at an
unchecked offset from `REGISTRY_BITS`.  Block numbers are `usize`, so the width
of a pointer is a parameter and the arithmetic wraps.
-/

namespace HolyRust
namespace Capabilities

/-- `usize` of a 32-bit target or of a 64-bit host. -/
inductive PointerWidth where
  | w32
  | w64
deriving DecidableEq, Repr

namespace PointerWidth

def bits : PointerWidth -> Nat
  | w32 => 32
  | w64 => 64

/-- Addition in `usize`. -/
def add (w : PointerWidth) (a b : Nat) : Nat := (a + b) % 2 ^ w.bits

/-- Subtraction in `usize`. -/
def sub (w : PointerWidth) (a b : Nat) : Nat := (a + 2 ^ w.bits - b) % 2 ^ w.bits

end PointerWidth

/-!
## Where the capability words are read

Only eight words exist.  A check is inside the registry if it reads no others,
and if it refuses every request with a block past the 256 they cover.
-/

/-- The request has a block that no registry word covers. -/
def LeavesRegistry (addr : Word) (len : Nat) : Prop :=
  exists k, blockOf addr ≤ k ∧ k < blockOf addr + len ∧ 256 ≤ k

theorem leavesRegistry_iff {addr : Word} {len : Nat} :
    LeavesRegistry addr len ↔ len ≠ 0 ∧ 256 < blockOf addr + len := by
  constructor
  · rintro ⟨k, hlo, hhi, hk⟩
    lia
  · rintro ⟨hlen, hlast⟩
    exact ⟨blockOf addr + len - 1, by lia, by lia, by lia⟩

/-!
## The crate's loop
-/

namespace HrosCap

/-- `k_start + len - 1`. -/
def lastBlock (w : PointerWidth) (addr : Word) (len : Nat) : Nat :=
  w.sub (w.add (blockOf addr) len) 1

def buildMaskWindow (w : PointerWidth) (addr : Word) (len base : Nat) : Option Mask256 :=
  if len = 0 then
    none
  else
    let winStart := max (blockOf addr) base
    let winEnd := min (lastBlock w addr len) (w.add base 255)
    if winEnd < winStart then
      none
    else
      some (markBlocks base (winEnd + 1 - winStart) winStart Mask256.zero)

/-- The `while curr_win <= k_end` loop; `none` when the fuel runs out first. -/
def windowLoop (w : PointerWidth) (caps : Nat -> Word) (addr : Word) (len : Nat) :
    Nat -> Nat -> Option Bool × List Nat
  | 0, _ => (none, [])
  | fuel + 1, currWin =>
      if currWin ≤ lastBlock w addr len then
        match buildMaskWindow w addr len currWin with
        | some mask =>
            let answer := verifyVector caps mask (currWin / 32)
            if answer.1 then
              let rest := windowLoop w caps addr len fuel (w.add currWin 256)
              (rest.1, answer.2 ++ rest.2)
            else
              (some false, answer.2)
        | none => windowLoop w caps addr len fuel (w.add currWin 256)
      else
        (some true, [])

def verifyRangeContiguous (w : PointerWidth) (caps : Nat -> Word) (addr : Word)
    (len fuel : Nat) : Option Bool × List Nat :=
  if len = 0 then
    (some true, [])
  else
    windowLoop w caps addr len fuel (windowBase (blockOf addr))

/-!
## Loop steps
-/

theorem windowLoop_done {w : PointerWidth} {caps : Nat -> Word} {addr : Word}
    {len currWin : Nat} (h : lastBlock w addr len < currWin) (fuel : Nat) :
    (windowLoop w caps addr len fuel currWin).2 = [] := by
  cases fuel with
  | zero => rfl
  | succ fuel =>
      simp only [windowLoop]
      rw [if_neg (by lia)]

theorem windowLoop_refuse {w : PointerWidth} {caps : Nat -> Word} {addr : Word}
    {len currWin : Nat} {mask : Mask256} (hin : currWin ≤ lastBlock w addr len)
    (hmask : buildMaskWindow w addr len currWin = some mask)
    (hbad : (verifyVector caps mask (currWin / 32)).1 = false) (fuel : Nat) :
    windowLoop w caps addr len (fuel + 1) currWin =
      (some false, (verifyVector caps mask (currWin / 32)).2) := by
  simp only [windowLoop]
  rw [if_pos hin, hmask]
  simp [hbad]

theorem windowLoop_accept {w : PointerWidth} {caps : Nat -> Word} {addr : Word}
    {len currWin : Nat} {mask : Mask256} (hin : currWin ≤ lastBlock w addr len)
    (hmask : buildMaskWindow w addr len currWin = some mask)
    (hgood : (verifyVector caps mask (currWin / 32)).1 = true) (fuel : Nat) :
    (windowLoop w caps addr len (fuel + 1) currWin).2 =
      (verifyVector caps mask (currWin / 32)).2 ++
        (windowLoop w caps addr len fuel (w.add currWin 256)).2 := by
  simp only [windowLoop]
  rw [if_pos hin, hmask]
  simp [hgood]

/-- A window that is looked at is read from its first word on. -/
theorem base_mem_windowLoop {w : PointerWidth} {caps : Nat -> Word} {addr : Word}
    {len currWin : Nat} {mask : Mask256} (hin : currWin ≤ lastBlock w addr len)
    (hmask : buildMaskWindow w addr len currWin = some mask) (fuel : Nat) :
    currWin / 32 ∈ (windowLoop w caps addr len (fuel + 1) currWin).2 := by
  have hmem := base_mem_verifyVector caps mask (currWin / 32)
  cases hanswer : (verifyVector caps mask (currWin / 32)).1 with
  | true =>
      rw [windowLoop_accept hin hmask hanswer]
      exact List.mem_append_left _ hmem
  | false =>
      rw [windowLoop_refuse hin hmask hanswer]
      exact hmem

/-- If the last block wrapped below the first one, no window is looked at. -/
theorem windowLoop_of_wrapped {w : PointerWidth} {caps : Nat -> Word} {addr : Word}
    {len : Nat} (h : lastBlock w addr len < blockOf addr) (fuel currWin : Nat) :
    (windowLoop w caps addr len fuel currWin).1 ≠ some false := by
  induction fuel generalizing currWin with
  | zero => simp [windowLoop]
  | succ fuel ih =>
      have hnone : buildMaskWindow w addr len currWin = none := by
        unfold buildMaskWindow
        by_cases hlen : len = 0
        · exact if_pos hlen
        · rw [if_neg hlen]
          exact if_pos (by lia)
      simp only [windowLoop]
      rw [hnone]
      by_cases hin : currWin ≤ lastBlock w addr len
      · rw [if_pos hin]
        exact ih _
      · rw [if_neg hin]
        simp

theorem pow_bits_le (w : PointerWidth) : 2 ^ 32 ≤ 2 ^ w.bits := by
  cases w <;> decide

theorem lastBlock_of_le {w : PointerWidth} {addr : Word} {len : Nat} (hlen : len ≠ 0)
    (h : blockOf addr + len ≤ 2 ^ w.bits) :
    lastBlock w addr len = blockOf addr + len - 1 := by
  have hpow := pow_bits_le w
  unfold lastBlock PointerWidth.sub PointerWidth.add
  generalize 2 ^ w.bits = size at h hpow ⊢
  by_cases heq : blockOf addr + len = size
  · rw [heq, Nat.mod_self, Nat.zero_add, Nat.mod_eq_of_lt (by lia)]
  · rw [Nat.mod_eq_of_lt (a := blockOf addr + len) (by lia),
      show blockOf addr + len + size - 1 = blockOf addr + len - 1 + size by lia,
      Nat.add_mod_right, Nat.mod_eq_of_lt (by lia)]

theorem lastBlock_of_lt {w : PointerWidth} {addr : Word} {len : Nat}
    (hlen : len < 2 ^ w.bits) (h : 2 ^ w.bits < blockOf addr + len) :
    lastBlock w addr len < blockOf addr := by
  have hpow := pow_bits_le w
  have hblock : blockOf addr < 2 ^ 20 := by
    have haddr := addr.isLt
    unfold blockOf
    lia
  unfold lastBlock PointerWidth.sub PointerWidth.add
  generalize 2 ^ w.bits = size at hlen h hpow ⊢
  have hwrap : (blockOf addr + len) % size = blockOf addr + len - size := by
    rw [Nat.mod_eq_sub_mod (by lia), Nat.mod_eq_of_lt (by lia)]
  rw [hwrap, show blockOf addr + len - size + size - 1 =
    blockOf addr + len - size - 1 + size by lia, Nat.add_mod_right,
    Nat.mod_eq_of_lt (by lia)]
  lia

/-- The mask of a window that the request reaches. -/
theorem buildMaskWindow_eq_some {w : PointerWidth} {addr : Word} {len base : Nat}
    (hlen : len ≠ 0) (hfits : blockOf addr + len ≤ 2 ^ w.bits)
    (hbase : base + 256 ≤ 2 ^ w.bits) (hlo : blockOf addr < base + 256)
    (hhi : base < blockOf addr + len) :
    buildMaskWindow w addr len base =
      some (markBlocks base
        (min (blockOf addr + len) (base + 256) - max (blockOf addr) base)
        (max (blockOf addr) base) Mask256.zero) := by
  unfold buildMaskWindow
  have hend : w.add base 255 = base + 255 := Nat.mod_eq_of_lt (by lia)
  rw [if_neg hlen, lastBlock_of_le hlen hfits, hend]
  dsimp only
  rw [if_neg (by lia)]
  congr 2
  lia

def InsideRegistry (w : PointerWidth) (caps : Nat -> Word) (addr : Word) (len : Nat) :
    Prop :=
  (forall fuel j, j ∈ (verifyRangeContiguous w caps addr len fuel).2 ->
      j < registryWords) ∧
    (LeavesRegistry addr len ->
      exists fuel, (verifyRangeContiguous w caps addr len fuel).1 = some false)

theorem verifyRangeContiguous_of_ne_zero {w : PointerWidth} {caps : Nat -> Word}
    {addr : Word} {len : Nat} (hlen : len ≠ 0) (fuel : Nat) :
    verifyRangeContiguous w caps addr len fuel =
      windowLoop w caps addr len fuel (windowBase (blockOf addr)) :=
  if_neg hlen

theorem not_insideRegistry_of_read {w : PointerWidth} {caps : Nat -> Word} {addr : Word}
    {len j : Nat} (fuel : Nat) (hj : registryWords ≤ j)
    (hmem : j ∈ (verifyRangeContiguous w caps addr len fuel).2) :
    ¬ InsideRegistry w caps addr len := by
  intro h
  exact absurd (h.left fuel j hmem) (by lia)

/-- The first window is outside: its first word is read at once. -/
theorem not_insideRegistry_high {w : PointerWidth} {caps : Nat -> Word} {addr : Word}
    {len : Nat} (hlen : len ≠ 0) (hfits : blockOf addr + len ≤ 2 ^ w.bits)
    (hhigh : 256 ≤ blockOf addr) :
    ¬ InsideRegistry w caps addr len := by
  have hpow := pow_bits_le w
  have haddr := addr.isLt
  have hblock : blockOf addr < 2 ^ 20 := by
    unfold blockOf
    lia
  have hle := windowBase_le (blockOf addr)
  have hwin : 256 ≤ windowBase (blockOf addr) ∧
      blockOf addr < windowBase (blockOf addr) + 256 := by
    unfold windowBase
    lia
  refine not_insideRegistry_of_read 1 (j := windowBase (blockOf addr) / 32) ?_ ?_
  · unfold registryWords
    lia
  · rw [verifyRangeContiguous_of_ne_zero hlen]
    exact base_mem_windowLoop (by rw [lastBlock_of_le hlen hfits]; lia)
      (buildMaskWindow_eq_some hlen hfits (by lia) (by lia) (by lia)) 0

/-!
Below block 256 the first window is the registry's own.
-/

section FirstWindow

/-- The mask of the first window. -/
def firstMask (addr : Word) (len : Nat) : Mask256 :=
  markBlocks 0 (min (blockOf addr + len) 256 - blockOf addr) (blockOf addr) Mask256.zero

variable {w : PointerWidth} {caps : Nat -> Word} {addr : Word} {len : Nat}

theorem buildMaskWindow_first (hlen : len ≠ 0) (hfits : blockOf addr + len ≤ 2 ^ w.bits)
    (hlow : blockOf addr < 256) :
    buildMaskWindow w addr len 0 = some (firstMask addr len) := by
  have hpow := pow_bits_le w
  have hmask := buildMaskWindow_eq_some hlen hfits (show 0 + 256 ≤ _ by lia) (by lia) (by lia)
  rw [Nat.max_eq_left (Nat.zero_le _), Nat.zero_add] at hmask
  exact hmask

theorem verifyVector_first (caps : Nat -> Word) (len : Nat) (hlow : blockOf addr < 256) :
    (verifyVector caps (firstMask addr len) (0 / 32)).1 = true ↔
      BlocksMarked caps (blockOf addr) (min (blockOf addr + len) 256 - blockOf addr) := by
  have hbase := windowBase_eq_zero hlow
  have hvector := verifyVector_markBlocks caps (k := blockOf addr)
    (n := min (blockOf addr + len) 256 - blockOf addr) (by lia)
  rw [hbase] at hvector
  exact hvector

theorem mem_verifyVector_first {j : Nat}
    (hj : j ∈ (verifyVector caps (firstMask addr len) (0 / 32)).2) : j < registryWords := by
  have hbound := mem_verifyWords_snd hj
  unfold registryWords
  lia

/-- A loop that reads the words of the first window only stays in the registry. -/
theorem reads_of_first (hlen : len ≠ 0) (hlow : blockOf addr < 256)
    (hloop : forall fuel, (windowLoop w caps addr len (fuel + 1) 0).2 =
      (verifyVector caps (firstMask addr len) (0 / 32)).2) (fuel j : Nat)
    (hj : j ∈ (verifyRangeContiguous w caps addr len fuel).2) : j < registryWords := by
  rw [verifyRangeContiguous_of_ne_zero hlen, windowBase_eq_zero hlow] at hj
  cases fuel with
  | zero => simp [windowLoop] at hj
  | succ fuel =>
      rw [hloop] at hj
      exact mem_verifyVector_first hj

theorem insideRegistry_of_refused (hlen : len ≠ 0) (hfits : blockOf addr + len ≤ 2 ^ w.bits)
    (hlow : blockOf addr < 256)
    (hbad : (verifyVector caps (firstMask addr len) (0 / 32)).1 = false) :
    InsideRegistry w caps addr len := by
  have hloop := windowLoop_refuse (Nat.zero_le _) (buildMaskWindow_first hlen hfits hlow) hbad
  constructor
  · refine reads_of_first hlen hlow ?_
    intro fuel
    rw [hloop]
  · intro _
    exists 1
    rw [verifyRangeContiguous_of_ne_zero hlen, windowBase_eq_zero hlow, hloop]

theorem insideRegistry_of_short (hlen : len ≠ 0) (hfits : blockOf addr + len ≤ 2 ^ w.bits)
    (hshort : blockOf addr + len ≤ 256)
    (hgood : (verifyVector caps (firstMask addr len) (0 / 32)).1 = true) :
    InsideRegistry w caps addr len := by
  have hpow := pow_bits_le w
  have hlow : blockOf addr < 256 := by lia
  have hlast := lastBlock_of_le hlen hfits
  have hnext : w.add 0 256 = 256 := Nat.mod_eq_of_lt (by lia)
  constructor
  · refine reads_of_first hlen hlow ?_
    intro fuel
    rw [windowLoop_accept (Nat.zero_le _) (buildMaskWindow_first hlen hfits hlow) hgood, hnext,
      windowLoop_done (by lia), List.append_nil]
  · intro hleaves
    rw [leavesRegistry_iff] at hleaves
    lia

/-- The loop goes on to the second window, which is outside. -/
theorem not_insideRegistry_of_long (hlen : len ≠ 0) (hfits : blockOf addr + len ≤ 2 ^ w.bits)
    (hlow : blockOf addr < 256) (hlong : 256 < blockOf addr + len)
    (hgood : (verifyVector caps (firstMask addr len) (0 / 32)).1 = true) :
    ¬ InsideRegistry w caps addr len := by
  have hpow := pow_bits_le w
  have hlast := lastBlock_of_le hlen hfits
  have hnext : w.add 0 256 = 256 := Nat.mod_eq_of_lt (by lia)
  refine not_insideRegistry_of_read 2 (j := 256 / 32) (by decide) ?_
  rw [verifyRangeContiguous_of_ne_zero hlen, windowBase_eq_zero hlow,
    windowLoop_accept (Nat.zero_le _) (buildMaskWindow_first hlen hfits hlow) hgood, hnext]
  exact List.mem_append_right _ (base_mem_windowLoop (by lia)
    (buildMaskWindow_eq_some hlen hfits (by lia) (by lia) (by lia)) 0)

/-- The comparison of the first window decides the rest. -/
theorem insideRegistry_low (hlen : len ≠ 0) (hfits : blockOf addr + len ≤ 2 ^ w.bits)
    (hlow : blockOf addr < 256) :
    InsideRegistry w caps addr len ↔
      blockOf addr + len ≤ 256 ∨
        ¬ BlocksMarked caps (blockOf addr) (256 - blockOf addr) := by
  have hvector := verifyVector_first caps len hlow
  by_cases hshort : blockOf addr + len ≤ 256
  · refine iff_of_true ?_ (Or.inl hshort)
    cases hanswer : (verifyVector caps (firstMask addr len) (0 / 32)).1 with
    | false => exact insideRegistry_of_refused hlen hfits hlow hanswer
    | true => exact insideRegistry_of_short hlen hfits hshort hanswer
  · have hlong := Nat.lt_of_not_le hshort
    rw [Nat.min_eq_right (Nat.le_of_lt hlong)] at hvector
    rw [or_iff_right hshort, ← hvector, Bool.not_eq_true]
    constructor
    · intro hinside
      by_contra hgood
      exact not_insideRegistry_of_long hlen hfits hlow hlong (eq_true_of_ne_false hgood) hinside
    · exact insideRegistry_of_refused hlen hfits hlow

end FirstWindow

theorem insideRegistry_iff (w : PointerWidth) (caps : Nat -> Word) (addr : Word)
    (len : BitVec w.bits) :
    InsideRegistry w caps addr len.toNat ↔
      len.toNat = 0 ∨ blockOf addr + len.toNat ≤ 256 ∨
        (blockOf addr < 256 ∧ blockOf addr + len.toNat ≤ 2 ^ w.bits ∧
          ¬ BlocksMarked caps (blockOf addr) (256 - blockOf addr)) := by
  have hpow := pow_bits_le w
  by_cases hlen : len.toNat = 0
  · refine iff_of_true ⟨?_, ?_⟩ (Or.inl hlen)
    · intro fuel j hj
      simp [verifyRangeContiguous, hlen] at hj
    · intro hleaves
      rw [leavesRegistry_iff] at hleaves
      exact absurd hlen hleaves.left
  · by_cases hfits : blockOf addr + len.toNat ≤ 2 ^ w.bits
    · by_cases hlow : blockOf addr < 256
      · rw [insideRegistry_low hlen hfits hlow]
        simp [hlen, hfits, hlow]
      · refine iff_of_false (not_insideRegistry_high hlen hfits (by lia)) ?_
        lia
    · refine iff_of_false ?_ (by lia)
      intro h
      rcases h.right (leavesRegistry_iff.mpr ⟨hlen, by lia⟩) with ⟨fuel, hfalse⟩
      rw [verifyRangeContiguous_of_ne_zero hlen] at hfalse
      exact windowLoop_of_wrapped (lastBlock_of_lt len.isLt (by lia)) _ _ hfalse

end HrosCap

/-!
## Both copies
-/

/-- The kernel's copy; SuperUser requests never reach the registry words. -/
def InsideRegistry (t : Target) (caps : Nat -> Word) (addr : Word) (len : Nat) : Prop :=
  (forall j, j ∈ (verifyRangeContiguous t caps addr len).2 -> j < registryWords) ∧
    (isSuperuserActive (registryOf caps) = false -> LeavesRegistry addr len ->
      (verifyRangeContiguous t caps addr len).1 ≠ .ok ())

/-- A request inside one window reads the words of that window. -/
theorem insideRegistry_iff_of_window {t : Target} {caps : Nat -> Word} {addr : Word} {len : Nat}
    (hsuper : isSuperuserActive (registryOf caps) = false) (hwindow : SingleWindow addr len) :
    InsideRegistry t caps addr len ↔ addr.toNat < 2 ^ 20 := by
  have hfast := verifyRangeContiguous_fast (t := t) hsuper hwindow
  by_cases hlow : addr.toNat < 2 ^ 20
  · have hbase : windowBase (blockOf addr) = 0 := windowBase_eq_zero (by unfold blockOf; lia)
    refine iff_of_true ⟨?_, ?_⟩ hlow
    · intro j hj
      rw [hfast.right] at hj
      have hbound := mem_verifyWords_snd hj
      unfold registryWords
      lia
    · intro _ hleaves
      have hfits := hwindow.right.right
      rw [leavesRegistry_iff] at hleaves
      rw [hbase] at hfits
      lia
  · refine iff_of_false ?_ hlow
    intro h
    have hread := h.left (windowBase (blockOf addr) / 32) (by
      rw [hfast.right]
      exact base_mem_verifyVector _ _ _)
    unfold registryWords windowBase blockOf at hread
    lia

theorem insideRegistry_iff_kernel (t : Target) (caps : Nat -> Word) (addr : Word)
    (len : Nat) :
    InsideRegistry t caps addr len ↔
      len = 0 ∨ isSuperuserActive (registryOf caps) = true ∨
        ¬ SingleWindow addr len ∨ addr.toNat < 2 ^ 20 := by
  by_cases hlen : len = 0
  · refine iff_of_true ⟨?_, ?_⟩ (Or.inl hlen)
    · intro j hj
      simp [verifyRangeContiguous, hlen] at hj
    · intro _ hleaves
      exact absurd hlen (leavesRegistry_iff.mp hleaves).left
  · cases hsuper : isSuperuserActive (registryOf caps) with
    | true =>
        refine iff_of_true ⟨?_, ?_⟩ (Or.inr (Or.inl rfl))
        · intro j hj
          simp [verifyRangeContiguous, hlen, hsuper] at hj
        · intro hinactive
          rw [hsuper] at hinactive
          cases hinactive
    | false =>
        by_cases hwindow : SingleWindow addr len
        · rw [insideRegistry_iff_of_window hsuper hwindow]
          simp [hlen, hwindow]
        · have hscalar := verifyRangeContiguous_scalar (t := t) hsuper hlen hwindow
          refine iff_of_true ⟨?_, ?_⟩ (Or.inr (Or.inr (Or.inl hwindow)))
          · intro j hj
            simp [hscalar] at hj
          · intro _ _
            rw [hscalar]
            exact checkBlocks_ne_ok hsuper hlen hwindow

/-- The kernel's check stays inside for requests below 1 MiB or across a window
border; the crate's for requests inside the first window, or refused there. -/
theorem rangeChecks_insideRegistry_iff (t : Target) (w : PointerWidth)
    (caps : Nat -> Word) (addr : Word) (len : BitVec w.bits) :
    (InsideRegistry t caps addr len.toNat ↔
        len.toNat = 0 ∨ isSuperuserActive (registryOf caps) = true ∨
          ¬ SingleWindow addr len.toNat ∨ addr.toNat < 2 ^ 20) ∧
      (HrosCap.InsideRegistry w caps addr len.toNat ↔
        len.toNat = 0 ∨ blockOf addr + len.toNat ≤ 256 ∨
          (blockOf addr < 256 ∧ blockOf addr + len.toNat ≤ 2 ^ w.bits ∧
            ¬ BlocksMarked caps (blockOf addr) (256 - blockOf addr))) :=
  ⟨insideRegistry_iff_kernel t caps addr len.toNat,
    HrosCap.insideRegistry_iff w caps addr len⟩

/-- One block of SRAM is looked up at word `0x1000` of an eight-word array. -/
theorem not_insideRegistry_sram :
    ¬ InsideRegistry .arm (fun _ => 0#32) 0x20000000#32 1 ∧
      ¬ HrosCap.InsideRegistry .w32 (fun _ => 0#32) 0x20000000#32 1 := by
  constructor
  · intro h
    exact absurd (h.left 0x1000 (by decide +kernel)) (by decide)
  · intro h
    exact absurd (h.left 1 0x1000 (by decide +kernel)) (by decide)

end Capabilities
end HolyRust
