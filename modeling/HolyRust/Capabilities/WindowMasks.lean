import HolyRust.Capabilities.MaskBuilders

/-!
# Masks against single bits

A mask comparison looks at up to 256 blocks at once.  It is compared with the scalar
predicates, which test one bit, first inside one window and then for the loop of
`hros_cap` over the windows of a longer range.
-/

namespace HolyRust
namespace Capabilities

/-- `registry::verify_scalar`: the bit of one block, in the 32-bit view. -/
def verifyScalar (r : Registry) (addr : Word) : Bool :=
  let k := blockOf addr
  match r.get? (k / 32) with
  | some w => (w >>> (k % 32)) &&& 1#32 == 1#32
  | none => false

/-- `hros_cap::verify_scalar`: the bit of one block in the 64-bit words from `base` on. -/
def HrosCap.verifyScalar (caps : Nat -> Word) (base : Nat) (addr : Word) : Bool :=
  let off := blockOf addr % 256
  (capU64 caps base (off / 64) >>> (off % 64)) &&& 1#64 == 1#64

/-!
## Single bits
-/

theorem shift_and_one_eq_one {w k : Nat} (x : BitVec w) (hk : k < w) :
    ((x >>> k) &&& 1#w == 1#w) = x.getLsbD k := by
  rw [Bool.eq_iff_iff, beq_iff_eq]
  constructor
  · intro h
    have hbit := congrArg (BitVec.getLsbD · 0) h
    simpa [show 0 < w by lia] using hbit
  · intro h
    apply BitVec.eq_of_getLsbD_eq
    intro i hi
    rw [BitVec.getLsbD_and, BitVec.getLsbD_ushiftRight, BitVec.getLsbD_one]
    by_cases hzero : i = 0
    · simp [hzero, h, show 0 < w by lia]
    · simp [hzero]

theorem hrosCap_verifyScalar_eq (caps : Nat -> Word) (base : Nat) (addr : Word) :
    HrosCap.verifyScalar caps base addr =
      (capU64 caps base (blockOf addr % 256 / 64)).getLsbD (blockOf addr % 256 % 64) :=
  shift_and_one_eq_one _ (Nat.mod_lt _ (by decide))

theorem verifyScalar_eq {caps : Nat -> Word} {addr : Word} (h : blockOf addr < 256) :
    verifyScalar (registryOf caps) addr = blockBit caps (blockOf addr) := by
  have hword : (registryOf caps).get? (blockOf addr / 32) =
      some (caps (blockOf addr / 32)) := by
    unfold Registry.get? registryWords
    rw [dif_pos (by lia)]
    rfl
  unfold verifyScalar
  dsimp only
  rw [hword]
  exact shift_and_one_eq_one _ (Nat.mod_lt _ (by decide))

/-- A mask comparison holds if every bit of the mask is one of the vector. -/
theorem verifyVector_iff_bits (caps : Nat -> Word) (mask : Mask256) (base : Nat) :
    (verifyVector caps mask base).1 = true ↔
      forall j, j < 256 -> mask.bit j = true ->
        (capU64 caps base (j / 64)).getLsbD (j % 64) = true := by
  unfold verifyVector
  rw [verifyWords_fst]
  constructor
  · intro h j hj hbit
    have hword : j / 64 < 4 := by lia
    unfold Mask256.bit at hbit
    rw [dif_pos hword] at hbit
    have hall : forall i : Fin 4, i ∈ [0, 1, 2, 3] := by decide
    exact (and_eq_right_iff _ _).mp (h ⟨j / 64, hword⟩ (hall _)) _
      (Nat.mod_lt _ (by decide)) hbit
  · intro h i _
    have hi := i.isLt
    refine (and_eq_right_iff _ _).mpr fun b hb hbit => ?_
    have hdiv : (64 * i.val + b) / 64 = i.val := by lia
    have hmod : (64 * i.val + b) % 64 = b := by lia
    have hmask : mask.bit (64 * i.val + b) = true := by
      unfold Mask256.bit
      rw [dif_pos (by lia)]
      simp only [hdiv, hmod]
      exact hbit
    have hcap := h (64 * i.val + b) (by lia) hmask
    rwa [hdiv, hmod] at hcap

/-!
## One window
-/

/-- The blocks of a request. -/
def InRequest (addr : Word) (len k : Nat) : Prop :=
  blockOf addr ≤ k ∧ k < blockOf addr + len

theorem exists_buildMask_iff (addr : Word) (len : Nat) :
    (exists mask, buildMask addr len = some mask) ↔ SingleWindow addr len := by
  by_cases h : SingleWindow addr len
  · exact iff_of_true ⟨_, buildMask_of_singleWindow h⟩ h
  · rw [buildMask_eq_none h]
    simp [h]

theorem buildMask_bit {addr : Word} {len j : Nat} {mask : Mask256}
    (h : buildMask addr len = some mask) (hj : j < 256) :
    mask.bit j = true ↔ InRequest addr len (windowBase (blockOf addr) + j) := by
  have hwindow := (exists_buildMask_iff addr len).mp ⟨mask, h⟩
  have hle := windowBase_le (blockOf addr)
  rw [buildMask_of_singleWindow hwindow] at h
  cases h
  rw [bit_markBlocks hle hj]
  unfold InRequest
  lia

theorem verifyVector_buildMask {addr : Word} {len : Nat} {mask : Mask256}
    (h : buildMask addr len = some mask) (caps : Nat -> Word) (base : Nat) :
    (verifyVector caps mask base).1 = true ↔
      forall a, InRequest addr len (blockOf a) -> HrosCap.verifyScalar caps base a = true := by
  have hwindow := (exists_buildMask_iff addr len).mp ⟨mask, h⟩
  have hfits := hwindow.right.right
  have hblock : windowBase (blockOf addr) = blockOf addr - blockOf addr % 256 := by
    unfold windowBase
    lia
  rw [verifyVector_iff_bits]
  constructor
  · intro hbits a ha
    rw [hrosCap_verifyScalar_eq]
    have hj : blockOf a % 256 < 256 := Nat.mod_lt _ (by decide)
    refine hbits _ hj ((buildMask_bit h hj).mpr ?_)
    unfold InRequest windowBase at *
    lia
  · intro hscalar j hj hbit
    have hin := (buildMask_bit h hj).mp hbit
    -- An address in the block of bit `j`.
    have haddr := addr.isLt
    have hlt : (windowBase (blockOf addr) + j) * 4096 < 2 ^ 32 := by
      unfold windowBase blockOf
      lia
    have hat : blockOf (BitVec.ofNat 32 ((windowBase (blockOf addr) + j) * 4096)) =
        windowBase (blockOf addr) + j := by
      unfold blockOf at hlt ⊢
      rw [BitVec.toNat_ofNat, Nat.mod_eq_of_lt hlt]
      lia
    have hbit' := hscalar (BitVec.ofNat 32 ((windowBase (blockOf addr) + j) * 4096))
      (by rw [hat]; exact hin)
    have hoff : (windowBase (blockOf addr) + j) % 256 = j := by
      unfold windowBase
      lia
    rwa [hrosCap_verifyScalar_eq, hat, hoff] at hbit'

/-- In the window of the registry both views show the same bits. -/
theorem hrosCap_verifyScalar_registry {caps : Nat -> Word} {addr : Word}
    (h : blockOf addr < 256) :
    HrosCap.verifyScalar caps 0 addr = verifyScalar (registryOf caps) addr := by
  have hbit := capU64_getLsbD caps (i := blockOf addr % 256 / 64)
    (b := blockOf addr % 256 % 64) (Nat.mod_lt _ (by decide)) (Nat.dvd_zero 8)
  rw [hrosCap_verifyScalar_eq, verifyScalar_eq h, hbit]
  congr 1
  lia

/-- Which requests have a mask, what is in it, and that comparing it is testing the bit
of every block; in the first window the bits are those of the registry. -/
theorem vectorCheck_iff_scalarChecks (addr : Word) (len : Nat) :
    ((exists mask, buildMask addr len = some mask) ↔
        1 ≤ len ∧ len ≤ 256 ∧ blockOf addr + len ≤ windowBase (blockOf addr) + 256) ∧
      (forall mask, buildMask addr len = some mask ->
        (forall j, j < 256 ->
          (mask.bit j = true ↔ InRequest addr len (windowBase (blockOf addr) + j))) ∧
        (forall caps base, (verifyVector caps mask base).1 = true ↔
          forall a, InRequest addr len (blockOf a) ->
            HrosCap.verifyScalar caps base a = true)) ∧
      forall caps a, blockOf a < 256 ->
        HrosCap.verifyScalar caps 0 a = verifyScalar (registryOf caps) a := by
  refine ⟨exists_buildMask_iff addr len, fun mask hmask => ⟨?_, ?_⟩, ?_⟩
  · exact fun j hj => buildMask_bit hmask hj
  · exact verifyVector_buildMask hmask
  · exact fun caps a ha => hrosCap_verifyScalar_registry ha

/-!
## The windows of a longer range
-/

namespace HrosCap

/-- The bases that `curr_win` goes through, unless a comparison fails. -/
def windows (w : PointerWidth) (addr : Word) (len : Nat) : Nat -> Nat -> List Nat
  | 0, _ => []
  | fuel + 1, currWin =>
      if currWin ≤ lastBlock w addr len then
        currWin :: windows w addr len fuel (w.add currWin 256)
      else
        []

/-- One turn of the loop: nothing to compare, or a comparison that holds. -/
def windowPasses (w : PointerWidth) (caps : Nat -> Word) (addr : Word) (len base : Nat) :
    Bool :=
  match buildMaskWindow w addr len base with
  | some mask => (verifyVector caps mask (base / 32)).1
  | none => true

/-- The mask of the window at `base` has the bit of block `k`. -/
def marks (w : PointerWidth) (addr : Word) (len k base : Nat) : Bool :=
  match buildMaskWindow w addr len base with
  | some mask => decide (base ≤ k ∧ k < base + 256) && mask.bit (k - base)
  | none => false

/-- How many windows there are from window number `c` on. -/
def windowsLeft (addr : Word) (len c : Nat) : Nat :=
  (blockOf addr + len - 1) / 256 + 1 - c

section Decomposition

variable {w : PointerWidth} {addr : Word} {len : Nat}

theorem lastBlock_of_fits (w : PointerWidth) (hlen : 1 ≤ len)
    (hfits : blockOf addr + len ≤ 2 ^ 20) :
    lastBlock w addr len = blockOf addr + len - 1 := by
  have hpow := pow_bits_le w
  exact lastBlock_of_le (by lia) (by lia)

theorem add_window (w : PointerWidth) {c : Nat} (h : 256 * c < 2 ^ 20) :
    w.add (256 * c) 256 = 256 * (c + 1) := by
  have hpow := pow_bits_le w
  unfold PointerWidth.add
  rw [Nat.mod_eq_of_lt (by lia)]
  lia

theorem windows_eq_range' (hlen : 1 ≤ len) (hfits : blockOf addr + len ≤ 2 ^ 20)
    {fuel c : Nat} (hfuel : windowsLeft addr len c < fuel) :
    windows w addr len fuel (256 * c) =
      List.range' (256 * c) (windowsLeft addr len c) 256 := by
  have hlast := lastBlock_of_fits w hlen hfits
  induction fuel generalizing c with
  | zero => exact absurd hfuel (Nat.not_lt_zero _)
  | succ fuel ih =>
      unfold windows
      rw [hlast]
      by_cases hin : 256 * c ≤ blockOf addr + len - 1
      · have hnext := add_window w (show 256 * c < 2 ^ 20 by lia)
        have hleft : windowsLeft addr len c = windowsLeft addr len (c + 1) + 1 := by
          unfold windowsLeft
          lia
        rw [if_pos hin, hnext, ih (by lia), hleft, List.range'_succ]
        rfl
      · have hnone : windowsLeft addr len c = 0 := by
          unfold windowsLeft
          lia
        rw [if_neg hin, hnone]
        rfl

/-- With enough fuel the loop is the conjunction of its turns. -/
theorem windowLoop_eq_all {caps : Nat -> Word} (hlen : 1 ≤ len)
    (hfits : blockOf addr + len ≤ 2 ^ 20) {fuel c : Nat}
    (hfuel : windowsLeft addr len c < fuel) :
    (windowLoop w caps addr len fuel (256 * c)).1 =
      some ((windows w addr len fuel (256 * c)).all (windowPasses w caps addr len)) := by
  have hlast := lastBlock_of_fits w hlen hfits
  induction fuel generalizing c with
  | zero => exact absurd hfuel (Nat.not_lt_zero _)
  | succ fuel ih =>
      unfold windowLoop windows
      by_cases hin : 256 * c ≤ lastBlock w addr len
      · have hnext := add_window w (show 256 * c < 2 ^ 20 by lia)
        have hrest := ih (c := c + 1) (by unfold windowsLeft at *; lia)
        rw [if_pos hin, if_pos hin, hnext, List.all_cons]
        unfold windowPasses at hrest ⊢
        cases hmask : buildMaskWindow w addr len (256 * c) with
        | none => simpa using hrest
        | some mask =>
            cases hanswer : (verifyVector caps mask (256 * c / 32)).1 with
            | true => simpa [hanswer] using hrest
            | false => simp [hanswer]
      · rw [if_neg hin, if_neg hin]
        rfl

/-- The mask of a window on the way has exactly the blocks of the request in it. -/
theorem marks_iff {base k : Nat} (hlen : 1 ≤ len) (hfits : blockOf addr + len ≤ 2 ^ 20)
    (hfirst : windowBase (blockOf addr) ≤ base) (hlast : base < blockOf addr + len) :
    marks w addr len k base = true ↔ InRequest addr len k ∧ base ≤ k ∧ k < base + 256 := by
  have hpow := pow_bits_le w
  have hnear : blockOf addr < base + 256 := by
    unfold windowBase at hfirst
    lia
  unfold marks InRequest
  rw [buildMaskWindow_eq_some (by lia) (by lia) (by lia) hnear hlast]
  dsimp only
  rw [Bool.and_eq_true, decide_eq_true_eq]
  constructor
  · rintro ⟨hin, hbit⟩
    rw [bit_markBlocks (by lia) (by lia)] at hbit
    lia
  · rintro ⟨hreq, hin⟩
    refine ⟨hin, (bit_markBlocks (by lia) (by lia)).mpr ?_⟩
    lia

theorem windowPasses_iff {caps : Nat -> Word} {base : Nat} (hlen : 1 ≤ len)
    (hfits : blockOf addr + len ≤ 2 ^ 20) (hwindow : base % 256 = 0)
    (hfirst : windowBase (blockOf addr) ≤ base) (hlast : base < blockOf addr + len) :
    windowPasses w caps addr len base = true ↔
      forall k, InRequest addr len k -> base ≤ k -> k < base + 256 ->
        blockBit caps k = true := by
  have hpow := pow_bits_le w
  have hnear : blockOf addr < base + 256 := by
    unfold windowBase at hfirst
    lia
  have hbase : windowBase (max (blockOf addr) base) = base := by
    unfold windowBase
    lia
  have hvector := verifyVector_markBlocks caps (k := max (blockOf addr) base)
    (n := min (blockOf addr + len) (base + 256) - max (blockOf addr) base) (by lia)
  rw [hbase] at hvector
  unfold windowPasses
  rw [buildMaskWindow_eq_some (by lia) (by lia) (by lia) hnear hlast]
  dsimp only
  rw [hvector]
  unfold BlocksMarked InRequest
  constructor
  · intro h k hreq hlo hhi
    exact h k (by lia) (by lia)
  · intro h k hlo hhi
    exact h k (by lia) (by lia) (by lia)

/-- From the first window on, the bases up to the last block, each once. -/
theorem mem_windows_iff (hlen : 1 ≤ len) (hfits : blockOf addr + len ≤ 2 ^ 20)
    {fuel base : Nat} (hfuel : 4096 < fuel) :
    base ∈ windows w addr len fuel (windowBase (blockOf addr)) ↔
      base % 256 = 0 ∧ windowBase (blockOf addr) ≤ base ∧ base < blockOf addr + len := by
  have hstart : windowBase (blockOf addr) = 256 * (blockOf addr / 256) := Nat.mul_comm _ _
  have hleft : windowsLeft addr len (blockOf addr / 256) < fuel := by
    unfold windowsLeft
    lia
  rw [hstart, windows_eq_range' hlen hfits hleft, List.mem_range']
  unfold windowsLeft
  constructor
  · rintro ⟨i, hi, rfl⟩
    lia
  · rintro ⟨hmod, hlo, hhi⟩
    exact ⟨base / 256 - blockOf addr / 256, by lia, by lia⟩

theorem nodup_windows (hlen : 1 ≤ len) (hfits : blockOf addr + len ≤ 2 ^ 20)
    {fuel : Nat} (hfuel : 4096 < fuel) :
    (windows w addr len fuel (windowBase (blockOf addr))).Nodup := by
  have hstart : windowBase (blockOf addr) = 256 * (blockOf addr / 256) := Nat.mul_comm _ _
  have hleft : windowsLeft addr len (blockOf addr / 256) < fuel := by
    unfold windowsLeft
    lia
  rw [hstart, windows_eq_range' hlen hfits hleft]
  exact List.nodup_range' 256 (by decide)

/-- A block of the request is in the mask of its own window only. -/
theorem countP_marks (hlen : 1 ≤ len) (hfits : blockOf addr + len ≤ 2 ^ 20) {fuel k : Nat}
    (hfuel : 4096 < fuel) (hreq : InRequest addr len k) :
    (windows w addr len fuel (windowBase (blockOf addr))).countP (marks w addr len k) = 1 := by
  have hown : windowBase k ∈ windows w addr len fuel (windowBase (blockOf addr)) := by
    rw [mem_windows_iff hlen hfits hfuel]
    unfold InRequest at hreq
    unfold windowBase
    lia
  rw [← List.count_eq_one_of_mem (nodup_windows hlen hfits hfuel) hown]
  apply List.countP_congr
  intro base hbase
  rcases (mem_windows_iff hlen hfits hfuel).mp hbase with ⟨hmod, hfirst, hlast⟩
  rw [marks_iff hlen hfits hfirst hlast, beq_iff_eq]
  unfold windowBase
  constructor
  · rintro ⟨_, hlo, hhi⟩
    lia
  · intro heq
    exact ⟨hreq, by lia, by lia⟩

theorem countP_marks_eq_zero (hlen : 1 ≤ len) (hfits : blockOf addr + len ≤ 2 ^ 20)
    {fuel k : Nat} (hfuel : 4096 < fuel) (hreq : ¬ InRequest addr len k) :
    (windows w addr len fuel (windowBase (blockOf addr))).countP (marks w addr len k) = 0 := by
  rw [List.countP_eq_zero]
  intro base hbase hmarks
  rcases (mem_windows_iff hlen hfits hfuel).mp hbase with ⟨_, hfirst, hlast⟩
  exact hreq ((marks_iff hlen hfits hfirst hlast).mp hmarks).left

theorem windows_all_iff {caps : Nat -> Word} (hlen : 1 ≤ len)
    (hfits : blockOf addr + len ≤ 2 ^ 20) {fuel : Nat} (hfuel : 4096 < fuel) :
    (windows w addr len fuel (windowBase (blockOf addr))).all
        (windowPasses w caps addr len) = true ↔
      BlocksMarked caps (blockOf addr) len := by
  rw [List.all_eq_true]
  constructor
  · intro h k hlo hhi
    have hreq : InRequest addr len k := ⟨hlo, hhi⟩
    have hown : windowBase k ∈ windows w addr len fuel (windowBase (blockOf addr)) := by
      rw [mem_windows_iff hlen hfits hfuel]
      unfold windowBase
      lia
    rcases (mem_windows_iff hlen hfits hfuel).mp hown with ⟨hmod, hfirst, hlast⟩
    refine (windowPasses_iff hlen hfits hmod hfirst hlast).mp (h _ hown) k hreq ?_ ?_
    · exact windowBase_le k
    · unfold windowBase
      lia
  · intro h base hbase
    rcases (mem_windows_iff hlen hfits hfuel).mp hbase with ⟨hmod, hfirst, hlast⟩
    exact (windowPasses_iff hlen hfits hmod hfirst hlast).mpr fun k hreq _ _ =>
      h k hreq.left hreq.right

/-- The loop reads words of the vector only. -/
theorem mem_windowLoop_snd {caps : Nat -> Word} (hlen : 1 ≤ len)
    (hfits : blockOf addr + len ≤ 2 ^ 20) {fuel c j : Nat}
    (hj : j ∈ (windowLoop w caps addr len fuel (256 * c)).2) : j < 2 ^ 15 := by
  have hlast := lastBlock_of_fits w hlen hfits
  induction fuel generalizing c with
  | zero => cases hj
  | succ fuel ih =>
      unfold windowLoop at hj
      by_cases hin : 256 * c ≤ lastBlock w addr len
      · rw [if_pos hin, add_window w (by lia)] at hj
        cases hmask : buildMaskWindow w addr len (256 * c) with
        | none =>
            rw [hmask] at hj
            exact ih hj
        | some mask =>
            rw [hmask] at hj
            have hown : forall i, i ∈ (verifyVector caps mask (256 * c / 32)).2 ->
                i < 2 ^ 15 := by
              intro i hi
              have hbound := mem_verifyWords_snd hi
              lia
            cases hanswer : (verifyVector caps mask (256 * c / 32)).1 with
            | true =>
                simp only [hanswer, if_true, List.mem_append] at hj
                rcases hj with hj | hj
                · exact hown j hj
                · exact ih hj
            | false =>
                simp only [hanswer, Bool.false_eq_true, if_false] at hj
                exact hown j hj
      · rw [if_neg hin] at hj
        cases hj

end Decomposition

/-- Over a vector with a bit for every block of the address space, the loop comes to an
end and accepts exactly the ranges whose bits are all set; the masks of its windows
divide the range among them. -/
theorem verifyRangeContiguous_decomposes (w : PointerWidth) (caps : Nat -> Word)
    {addr : Word} {len : Nat} (hlen : 1 ≤ len) (hfits : blockOf addr + len ≤ 2 ^ 20)
    {fuel : Nat} (hfuel : 4096 < fuel) :
    (exists answer, (verifyRangeContiguous w caps addr len fuel).1 = some answer ∧
        (answer = true ↔ BlocksMarked caps (blockOf addr) len)) ∧
      (forall j, j ∈ (verifyRangeContiguous w caps addr len fuel).2 -> j < 2 ^ 15) ∧
      (verifyRangeContiguous w caps addr len fuel).1 =
        some ((windows w addr len fuel (windowBase (blockOf addr))).all
          (windowPasses w caps addr len)) ∧
      forall k,
        (InRequest addr len k -> (windows w addr len fuel
          (windowBase (blockOf addr))).countP (marks w addr len k) = 1) ∧
        (¬ InRequest addr len k -> (windows w addr len fuel
          (windowBase (blockOf addr))).countP (marks w addr len k) = 0) := by
  have hstart : windowBase (blockOf addr) = 256 * (blockOf addr / 256) := Nat.mul_comm _ _
  have hleft : windowsLeft addr len (blockOf addr / 256) < fuel := by
    unfold windowsLeft
    lia
  have hloop : verifyRangeContiguous w caps addr len fuel =
      windowLoop w caps addr len fuel (windowBase (blockOf addr)) :=
    verifyRangeContiguous_of_ne_zero (by lia) fuel
  have hall : (verifyRangeContiguous w caps addr len fuel).1 =
      some ((windows w addr len fuel (windowBase (blockOf addr))).all
        (windowPasses w caps addr len)) := by
    rw [hloop, hstart]
    exact windowLoop_eq_all hlen hfits hleft
  refine ⟨⟨_, hall, windows_all_iff hlen hfits hfuel⟩, ?_, hall, fun k => ⟨?_, ?_⟩⟩
  · intro j hj
    rw [hloop, hstart] at hj
    exact mem_windowLoop_snd hlen hfits hj
  · exact countP_marks hlen hfits hfuel
  · exact countP_marks_eq_zero hlen hfits hfuel

/-- Two blocks on either side of a window border, of which the second is not marked. -/
theorem verifyRangeContiguous_straddling :
    exists answer,
      (verifyRangeContiguous .w32 (fun i => if i = 7 then 0x80000000#32 else 0#32)
        0x000FF000#32 2 5000).1 = some answer ∧
      (answer = true ↔ BlocksMarked (fun i => if i = 7 then 0x80000000#32 else 0#32)
        (blockOf 0x000FF000#32) 2) :=
  (verifyRangeContiguous_decomposes .w32 _ (by decide) (by decide) (by decide)).left

end HrosCap

end Capabilities
end HolyRust
