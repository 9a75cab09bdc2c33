import HolyRust.Capabilities.OpenRange

/-!
# Word accesses behind a byte check

`check_access` looks at one address, and the access that follows covers four bytes.
The word stays among accessible bytes unless it starts in the last three bytes of a
region; then the region that begins right after has to be claimed as well.
-/

namespace HolyRust
namespace Capabilities

def addrMap : Target -> List (Nat × Nat × CapId)
  | .arm => armAddrMap
  | .riscv32 => riscvAddrMap

/-- The first and the last address of the RAM and flash windows. -/
def ramFlash : Target -> List (Nat × Nat)
  | .arm => [(0x08000000, 0x080FFFFF), (0x20000000, 0x2001C000)]
  | .riscv32 => [(0x20000000, 0x2000FFFF), (0x80000000, 0x8000FFFF)]

def regions (t : Target) : List (Nat × Nat) :=
  (addrMap t).map (fun row => (row.1, row.2.1)) ++ ramFlash t

/-!
## The access rule by regions
-/

theorem addrToCapId_eq (t : Target) (addr : Word) :
    addrToCapId t addr = addrLookup (addrMap t) addr := by
  cases t <;> rfl

theorem isRamFlash_iff {t : Target} {addr : Word} :
    isRamFlash t addr = true ↔
      exists window, window ∈ ramFlash t ∧ window.1 ≤ addr.toNat ∧ addr.toNat ≤ window.2 := by
  cases t with
  | arm => simp [isRamFlash, ramFlash, inRange_eq_true_iff]
  | riscv32 => simp [isRamFlash, ramFlash, inRange_eq_true_iff]

/-- Ranges of which no two have an address in common. -/
def DisjointRows (map : List (Nat × Nat × CapId)) : Prop :=
  forall row, row ∈ map -> forall row', row' ∈ map -> row.1 ≤ row'.2.1 -> row'.1 ≤ row.2.1 ->
    row = row'

theorem addrLookup_eq_some_iff {map : List (Nat × Nat × CapId)} (hmap : DisjointRows map)
    {addr : Word} {cap : CapId} :
    addrLookup map addr = some cap ↔
      exists row, row ∈ map ∧ row.1 ≤ addr.toNat ∧ addr.toNat ≤ row.2.1 ∧ row.2.2 = cap := by
  constructor
  · intro h
    rcases mem_of_addrLookup h with ⟨lo, hi, hmem, hlo, hhi⟩
    exact ⟨(lo, hi, cap), hmem, hlo, hhi, rfl⟩
  · rintro ⟨row, hmem, hlo, hhi, rfl⟩
    cases hfound : addrLookup map addr with
    | none =>
        unfold addrLookup at hfound
        rw [Option.map_eq_none_iff, List.find?_eq_none] at hfound
        exact absurd (inRange_eq_true_iff.mpr ⟨hlo, hhi⟩) (hfound row hmem)
    | some cap =>
        rcases mem_of_addrLookup hfound with ⟨lo, hi, hmem', hlo', hhi'⟩
        have hrow := hmap row hmem (lo, hi, cap) hmem' (by lia) (by lia)
        rw [hrow]

theorem disjointRows_addrMap (t : Target) : DisjointRows (addrMap t) := by
  unfold DisjointRows
  cases t <;> decide

/-- No RAM or flash address belongs to a peripheral. -/
theorem ramFlash_apart (t : Target) : forall window, window ∈ ramFlash t ->
    forall row, row ∈ addrMap t -> ¬ (row.1 ≤ window.2 ∧ window.1 ≤ row.2.1) := by
  cases t <;> decide

theorem accessible_iff_regions {t : Target} {r : Registry} (addr : Word)
    (hsuper : isSuperuserActive r = false) :
    Accessible t r addr ↔
      (exists row, row ∈ addrMap t ∧ row.1 ≤ addr.toNat ∧ addr.toNat ≤ row.2.1 ∧
        isClaimed r row.2.2.index = true) ∨
      exists window, window ∈ ramFlash t ∧ window.1 ≤ addr.toNat ∧ addr.toNat ≤ window.2 := by
  rw [accessible_iff addr hsuper, isRamFlash_iff, addrToCapId_eq]
  constructor
  · rintro (⟨cap, hcap, hclaimed⟩ | ⟨_, hwindow⟩)
    · rcases (addrLookup_eq_some_iff (disjointRows_addrMap t)).mp hcap with
        ⟨row, hmem, hlo, hhi, rfl⟩
      exact Or.inl ⟨row, hmem, hlo, hhi, hclaimed⟩
    · exact Or.inr hwindow
  · rintro (⟨row, hmem, hlo, hhi, hclaimed⟩ | ⟨window, hmem, hlo, hhi⟩)
    · exact Or.inl ⟨row.2.2, (addrLookup_eq_some_iff (disjointRows_addrMap t)).mpr
        ⟨row, hmem, hlo, hhi, rfl⟩, hclaimed⟩
    · refine Or.inr ⟨addrLookup_eq_none fun row hrow hin => ?_, window, hmem, hlo, hhi⟩
      exact ramFlash_apart t window hmem row hrow ⟨by lia, by lia⟩

/-!
## Words
-/

/-- The four bytes from `addr` on exist, and each of them may be accessed. -/
def WordAccessible (t : Target) (r : Registry) (addr : Word) : Prop :=
  addr.toNat + 3 < 2 ^ 32 ∧
    forall k, k < 4 -> Accessible t r (addr + BitVec.ofNat 32 k)

/-- The word ends in the region in which it starts, or the peripheral right after that
region is claimed. -/
def StaysClaimed (t : Target) (r : Registry) (addr : Word) : Prop :=
  forall region, region ∈ regions t -> region.1 ≤ addr.toNat -> addr.toNat ≤ region.2 ->
    addr.toNat + 3 ≤ region.2 ∨
      exists row, row ∈ addrMap t ∧ row.1 = region.2 + 1 ∧ isClaimed r row.2.2.index = true

/-- A peripheral that goes on after a region begins there. -/
theorem next_row (t : Target) : forall region, region ∈ regions t ->
    forall row, row ∈ addrMap t -> row.1 ≤ region.2 + 1 -> region.2 + 1 ≤ row.2.1 ->
      row.1 = region.2 + 1 := by
  cases t <;> decide

theorem row_room (t : Target) : forall row, row ∈ addrMap t -> row.1 + 3 ≤ row.2.1 := by
  cases t <;> decide

theorem next_not_ramFlash (t : Target) : forall region, region ∈ regions t ->
    forall window, window ∈ ramFlash t ->
      ¬ (window.1 ≤ region.2 + 1 ∧ region.2 + 1 ≤ window.2) := by
  cases t <;> decide

theorem regions_end (t : Target) : forall region, region ∈ regions t ->
    region.2 + 3 < 2 ^ 32 := by
  cases t <;> decide

theorem mem_regions_of_row {t : Target} {row : Nat × Nat × CapId} (h : row ∈ addrMap t) :
    (row.1, row.2.1) ∈ regions t :=
  List.mem_append_left _ (List.mem_map.mpr ⟨row, h, rfl⟩)

/-- Every byte of the word is in the region of the first one or right after it. -/
theorem wordAccessible_of_region {t : Target} {r : Registry} {addr : Word}
    {region : Nat × Nat} (hsuper : isSuperuserActive r = false) (hmem : region ∈ regions t)
    (hhi : addr.toNat ≤ region.2) (hstays : addr.toNat + 3 ≤ region.2 ∨
      exists row, row ∈ addrMap t ∧ row.1 = region.2 + 1 ∧ isClaimed r row.2.2.index = true)
    (hhere : forall a : Word, addr.toNat ≤ a.toNat -> a.toNat ≤ region.2 -> Accessible t r a) :
    WordAccessible t r addr := by
  have hend := regions_end t region hmem
  refine ⟨by lia, fun k hk => ?_⟩
  have hbyte : (addr + BitVec.ofNat 32 k).toNat = addr.toNat + k :=
    byte_toNat (n := 4) (by lia) hk
  by_cases hin : addr.toNat + k ≤ region.2
  · exact hhere _ (by lia) (by lia)
  · rcases hstays with hstays | ⟨row, hrow, hstart, hclaimed⟩
    · lia
    · have hroom := row_room t row hrow
      exact (accessible_iff_regions _ hsuper).mpr
        (Or.inl ⟨row, hrow, by lia, by lia, hclaimed⟩)

theorem wordAccessible_of_staysClaimed {t : Target} {r : Registry} {addr : Word}
    (hsuper : isSuperuserActive r = false) (haccess : Accessible t r addr)
    (hstays : StaysClaimed t r addr) : WordAccessible t r addr := by
  rcases (accessible_iff_regions addr hsuper).mp haccess with
    ⟨row, hrow, hlo, hhi, hclaimed⟩ | ⟨window, hwindow, hlo, hhi⟩
  · have hmem := mem_regions_of_row hrow
    refine wordAccessible_of_region hsuper hmem hhi (hstays _ hmem hlo hhi) fun a ha ha' => ?_
    exact (accessible_iff_regions a hsuper).mpr
      (Or.inl ⟨row, hrow, hlo.trans ha, ha', hclaimed⟩)
  · have hmem : window ∈ regions t := List.mem_append_right _ hwindow
    refine wordAccessible_of_region hsuper hmem hhi (hstays _ hmem hlo hhi) fun a ha ha' => ?_
    exact (accessible_iff_regions a hsuper).mpr (Or.inr ⟨window, hwindow, hlo.trans ha, ha'⟩)

theorem staysClaimed_of_wordAccessible {t : Target} {r : Registry} {addr : Word}
    (hsuper : isSuperuserActive r = false) (hword : WordAccessible t r addr) :
    StaysClaimed t r addr := by
  intro region hmem hlo hhi
  by_cases hin : addr.toNat + 3 ≤ region.2
  · exact Or.inl hin
  · -- The first byte after the region is one of the word's.
    have hnext := hword.right (region.2 + 1 - addr.toNat) (by lia)
    have hbyte : (addr + BitVec.ofNat 32 (region.2 + 1 - addr.toNat)).toNat =
        region.2 + 1 := by
      rw [byte_toNat (n := 4) (by have := hword.left; lia) (by lia)]
      lia
    rcases (accessible_iff_regions _ hsuper).mp hnext with
      ⟨row, hrow, hlo', hhi', hclaimed⟩ | ⟨window, hwindow, hlo', hhi'⟩
    · rw [hbyte] at hlo' hhi'
      exact Or.inr ⟨row, hrow, next_row t region hmem row hrow hlo' hhi', hclaimed⟩
    · rw [hbyte] at hlo' hhi'
      exact absurd ⟨hlo', hhi'⟩ (next_not_ramFlash t region hmem window hwindow)

/-- Without SuperUser, the word behind an accepted address is accessible exactly when it
does not leave the region of that address for an unclaimed one. -/
theorem wordAccessible_iff_staysClaimed (t : Target) {r : Registry}
    (hsuper : isSuperuserActive r = false) (addr : Word) :
    (Accessible t r addr -> WordAccessible t r addr) ↔
      (Accessible t r addr -> StaysClaimed t r addr) := by
  refine imp_congr_right fun haccess => ?_
  constructor
  · exact staysClaimed_of_wordAccessible hsuper
  · exact wordAccessible_of_staysClaimed hsuper haccess

/-- The first register of a claimed port. -/
theorem wordAccessible_gpioA :
    isSuperuserActive (fun _ => 1#32) = false ∧
      (Accessible .arm (fun _ => 1#32) 0x40020000#32 ->
        WordAccessible .arm (fun _ => 1#32) 0x40020000#32) := by
  have hsuper : isSuperuserActive (fun _ => 1#32) = false := by decide +kernel
  refine ⟨hsuper, (wordAccessible_iff_staysClaimed .arm hsuper _).mpr fun _ => ?_⟩
  intro region hmem hlo hhi
  have hstays : forall region, region ∈ regions .arm -> region.1 ≤ 0x40020000 ->
      0x40020000 ≤ region.2 -> 0x40020003 ≤ region.2 := by
    decide
  exact Or.inl (hstays region hmem hlo hhi)

/-- GPIOA's last three bytes with GPIOB unclaimed; and the end of ARM RAM, which the
access rule puts one byte too far. -/
theorem not_wordAccessible_at_ends :
    (isSuperuserActive (fun _ => 1#32) = false ∧
      Accessible .arm (fun _ => 1#32) 0x400203FD#32 ∧
      ¬ WordAccessible .arm (fun _ => 1#32) 0x400203FD#32) ∧
    (isSuperuserActive (fun _ => 0#32) = false ∧
      Accessible .arm (fun _ => 0#32) 0x2001C000#32 ∧
      ¬ WordAccessible .arm (fun _ => 0#32) 0x2001C000#32) := by
  refine ⟨⟨by decide +kernel, by decide +kernel, fun h => ?_⟩,
    ⟨by decide +kernel, by decide +kernel, fun h => ?_⟩⟩
  · exact absurd (h.right 3 (by decide)) (by decide +kernel)
  · exact absurd (h.right 1 (by decide)) (by decide +kernel)

/-- For aligned addresses that word beyond ARM RAM is the only exception. -/
theorem wordAccessible_of_aligned {t : Target} {r : Registry} {addr : Word}
    (hsuper : isSuperuserActive r = false) (haligned : addr.toNat % 4 = 0)
    (hram : t = .arm -> addr ≠ 0x2001C000#32) (haccess : Accessible t r addr) :
    WordAccessible t r addr := by
  have hends : forall region, region ∈ regions t ->
      region.2 % 4 = 3 ∨ (t = .arm ∧ region.2 = 0x2001C000) := by
    cases t <;> decide
  refine wordAccessible_of_staysClaimed hsuper haccess fun region hmem hlo hhi => Or.inl ?_
  rcases hends region hmem with hend | ⟨harm, hend⟩
  · lia
  · have hne : addr.toNat ≠ 0x2001C000 := fun h => hram harm (BitVec.eq_of_toNat_eq h)
    lia

end Capabilities
end HolyRust
