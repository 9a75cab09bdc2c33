import Mathlib.Data.Finset.Card
import Mathlib.Data.Fintype.Card
import HolyRust.Compilation.RawState
import HolyRust.Compilation.Tables

/-!
# The symbol table is a finite map

A symbol array comes together with the insertions that succeeded on it.  However the names
collide, a probe reads the last of them back, and an insertion fails exactly when the name
is new and every slot holds a name.
-/

namespace HolyRust
namespace Compilation

open Foundation

/-!
## Insertions
-/

/-- A symbol array and the successful insertions that led to it, latest first. -/
structure Bindings where
  table : Raw.Compiler
  bound : List (List Byte × Word)

namespace Bindings

def empty : Bindings where
  table := .new
  bound := []

def insert (m : Bindings) (name : NameBuf) (value : Word) : Except Panic Bindings := do
  let (result, table) <- m.table.insertSymbol name.raw value
  match result with
  | .ok _ => .ok ⟨table, (name.bytes, value) :: m.bound⟩
  | .error _ => .ok ⟨table, m.bound⟩

def run : List (NameBuf × Word) -> Bindings -> Except Panic Bindings
  | [], m => .ok m
  | (name, value) :: rest, m => do
      let m <- m.insert name value
      run rest m

/-- The names that are bound. -/
def boundNames (m : Bindings) : Finset (List Byte) :=
  (m.bound.map fun b => b.1).toFinset

theorem mem_boundNames {m : Bindings} {name : List Byte} :
    name ∈ m.boundNames ↔ m.bound.lookup name ≠ none := by
  unfold boundNames
  rw [List.mem_toFinset, List.mem_map, Ne, List.lookup_eq_none_iff]
  constructor
  · rintro ⟨b, hb, rfl⟩ hall
    simpa using hall b hb
  · intro hnot
    by_contra hnone
    refine hnot fun b hb => ?_
    rw [bne_iff_ne]
    rintro rfl
    exact hnone ⟨b, hb, rfl⟩

end Bindings

/-!
## Probing

A probe meets every slot, so what it does not find is nowhere.
-/

theorem exists_probe (start : Nat) (i : Fin symbolSlots) :
    exists k, k < symbolSlots ∧ Compiler.probe start k = i := by
  have hi : i.val < 32 := i.isLt
  refine ⟨(i.val + 32 - start % 32) % 32, Nat.mod_lt _ (by decide), Fin.ext ?_⟩
  show (start + (i.val + 32 - start % 32) % 32) % 32 = i.val
  lia

theorem lookupLoop_some {c : Compiler} {name : List Byte} {w : Word} {start n step : Nat}
    (h : c.lookupLoop name start n step = some w) :
    exists i s, c.symbols i = some s ∧ s.name.bytes = name := by
  induction n generalizing step with
  | zero => cases h
  | succ n ih =>
      rw [Compiler.lookupLoop] at h
      cases hslot : c.symbols (Compiler.probe start step) with
      | none =>
          rw [hslot] at h
          cases h
      | some s =>
          rw [hslot] at h
          dsimp only at h
          by_cases hname : s.name.bytes = name
          · exact ⟨_, s, hslot, hname⟩
          · rw [if_neg hname] at h
            exact ih h

/-- An insertion that fails has met other names only. -/
theorem insertLoop_error {c : Compiler} {name : NameBuf} {value : Word} {e : ParseError}
    {start n step : Nat} (h : c.insertLoop name value start n step = .error e) :
    e = .symbolTableFull ∧ forall k, step ≤ k -> k < step + n ->
      ¬ c.Takes name.bytes (Compiler.probe start k) := by
  induction n generalizing step with
  | zero =>
      cases h
      exact ⟨rfl, fun k hle hlt => absurd hlt (Nat.not_lt.mpr hle)⟩
  | succ n ih =>
      rw [Compiler.insertLoop] at h
      cases hslot : c.symbols (Compiler.probe start step) with
      | none =>
          rw [hslot] at h
          cases h
      | some s =>
          rw [hslot] at h
          dsimp only at h
          by_cases hname : s.name.bytes = name.bytes
          · rw [if_pos hname] at h
            cases h
          · rw [if_neg hname] at h
            obtain ⟨he, hothers⟩ := ih h
            refine ⟨he, fun k hle hlt => ?_⟩
            rcases Nat.eq_or_lt_of_le hle with rfl | hstep
            · rintro (hnone | ⟨s', hs', hname'⟩)
              · rw [hslot] at hnone
                cases hnone
              · rw [hslot] at hs'
                cases hs'
                exact hname hname'
            · exact hothers k hstep (by lia)

/-- Every slot holds a name, and another one. -/
theorem insertSymbol_error_iff {c : Compiler} {name : NameBuf} {value : Word} :
    c.insertSymbol name value = .error .symbolTableFull ↔ forall i, ¬ c.Takes name.bytes i := by
  constructor
  · intro h i
    obtain ⟨k, hk, rfl⟩ := exists_probe (Compiler.hash name.bytes) i
    exact (insertLoop_error h).right k (Nat.zero_le _) (by lia)
  · intro hnone
    cases hinsert : c.insertSymbol name value with
    | ok c' =>
        obtain ⟨k, htakes, _⟩ := insertLoop_ok hinsert
        exact absurd htakes (hnone _)
    | error e => rw [(insertLoop_error hinsert).left]

/-!
## What the bindings say about the table
-/

/-- The array holds a table in which exactly the bound names are found. -/
structure Represents (m : Bindings) (c : Compiler) : Prop where
  shows : m.table.ShowsSymbols c
  probed : c.Probed
  apart : c.NamesApart
  found : forall name value, m.bound.lookup name = some value -> c.lookupSymbol name = some value
  listed : forall i s, c.symbols i = some s -> s.name.bytes ∈ m.boundNames

theorem represents_empty : Represents .empty .new where
  shows := Raw.Compiler.showsSymbols_new
  probed := fun _ _ hs => by cases hs
  apart := fun _ _ _ _ hs => by cases hs
  found := fun _ _ hbound => by cases hbound
  listed := fun _ _ hs => by cases hs

namespace Represents

variable {m : Bindings} {c : Compiler}

theorem lookup_eq (hr : Represents m c) (name : List Byte) :
    c.lookupSymbol name = m.bound.lookup name := by
  cases hbound : m.bound.lookup name with
  | some value => exact hr.found name value hbound
  | none =>
      cases hlookup : c.lookupSymbol name with
      | none => rfl
      | some w =>
          obtain ⟨i, s, hs, rfl⟩ := lookupLoop_some hlookup
          exact absurd hbound (Bindings.mem_boundNames.mp (hr.listed i s hs))

theorem exists_slot (hr : Represents m c) {name : List Byte} (hname : name ∈ m.boundNames) :
    exists i s, c.symbols i = some s ∧ s.name.bytes = name := by
  rw [Bindings.mem_boundNames, ← hr.lookup_eq] at hname
  obtain ⟨w, hw⟩ := Option.ne_none_iff_exists'.mp hname
  exact lookupLoop_some hw

/-- The slots that hold a name. -/
def usedSlots (c : Compiler) : Finset (Fin symbolSlots) :=
  Finset.univ.filter fun i => (c.symbols i).isSome = true

def nameAt (c : Compiler) (i : Fin symbolSlots) : List Byte :=
  match c.symbols i with
  | some s => s.name.bytes
  | none => []

theorem nameAt_of_some {i : Fin symbolSlots} {s : Symbol} (hs : c.symbols i = some s) :
    nameAt c i = s.name.bytes := by
  unfold nameAt
  rw [hs]

theorem mem_usedSlots {i : Fin symbolSlots} :
    i ∈ usedSlots c ↔ exists s, c.symbols i = some s := by
  unfold usedSlots
  rw [Finset.mem_filter, Option.isSome_iff_exists]
  exact ⟨fun hi => hi.right, fun hi => ⟨Finset.mem_univ i, hi⟩⟩

theorem boundNames_eq (hr : Represents m c) : m.boundNames = (usedSlots c).image (nameAt c) := by
  ext name
  rw [Finset.mem_image]
  constructor
  · intro hname
    obtain ⟨i, s, hs, rfl⟩ := hr.exists_slot hname
    exact ⟨i, mem_usedSlots.mpr ⟨s, hs⟩, nameAt_of_some hs⟩
  · rintro ⟨i, hi, rfl⟩
    obtain ⟨s, hs⟩ := mem_usedSlots.mp hi
    rw [nameAt_of_some hs]
    exact hr.listed i s hs

/-- One slot for each bound name. -/
theorem card_boundNames (hr : Represents m c) : m.boundNames.card = (usedSlots c).card := by
  rw [hr.boundNames_eq]
  apply Finset.card_image_of_injOn
  intro i hi j hj hname
  obtain ⟨s, hs⟩ := mem_usedSlots.mp hi
  obtain ⟨s', hs'⟩ := mem_usedSlots.mp hj
  rw [nameAt_of_some hs, nameAt_of_some hs'] at hname
  exact hr.apart i j s s' hs hs' hname

theorem card_eq_iff (hr : Represents m c) :
    m.boundNames.card = symbolSlots ↔ forall i, c.symbols i ≠ none := by
  have hslots : (usedSlots c).card = symbolSlots ↔ usedSlots c = Finset.univ := by
    have hcard := Finset.card_eq_iff_eq_univ (usedSlots c)
    rw [Fintype.card_fin] at hcard
    exact hcard
  rw [hr.card_boundNames, hslots, Finset.eq_univ_iff_forall]
  constructor
  · intro hall i
    exact Option.ne_none_iff_exists'.mpr (mem_usedSlots.mp (hall i))
  · intro hall i
    exact mem_usedSlots.mpr (Option.ne_none_iff_exists'.mp (hall i))

/-- The table is full for a name when it is new and all slots are taken. -/
theorem insert_error_iff (hr : Represents m c) (name : NameBuf) (value : Word) :
    c.insertSymbol name value = .error .symbolTableFull ↔
      m.bound.lookup name.bytes = none ∧ m.boundNames.card = symbolSlots := by
  rw [insertSymbol_error_iff, hr.card_eq_iff]
  constructor
  · intro hnone
    refine ⟨?_, fun i hfree => hnone i (Or.inl hfree)⟩
    by_contra hbound
    obtain ⟨i, s, hs, hname⟩ := hr.exists_slot (Bindings.mem_boundNames.mpr hbound)
    exact hnone i (Or.inr ⟨s, hs, hname⟩)
  · rintro ⟨hnew, hused⟩ i (hfree | ⟨s, hs, hname⟩)
    · exact hused i hfree
    · have hlisted := hr.listed i s hs
      rw [hname, Bindings.mem_boundNames] at hlisted
      exact hlisted hnew

/-- What is bound after an insertion that succeeded. -/
theorem bind (hr : Represents m c) {name : NameBuf} {value : Word} {c' : Compiler}
    {table : Raw.Compiler} (hinsert : c.insertSymbol name value = .ok c')
    (hshows : table.ShowsSymbols c') :
    Represents ⟨table, (name.bytes, value) :: m.bound⟩ c' where
  shows := hshows
  probed := probed_insert hr.probed hinsert
  apart := namesApart_insert hr.probed hr.apart hinsert
  found := by
    intro other w hbound
    by_cases hother : name.bytes = other
    · rw [← hother, List.lookup_cons_self] at hbound
      rw [← hother, lookup_insert hinsert]
      exact hbound
    · have hne : (other == name.bytes) = false := by
        rw [beq_eq_false_iff_ne]
        exact fun heq => hother heq.symm
      rw [List.lookup_cons, hne] at hbound
      exact lookup_insert_of_ne hinsert hother (hr.found other w hbound)
  listed := by
    intro i s hs
    obtain ⟨k, _, rfl, _⟩ := insertLoop_ok hinsert
    rw [Bindings.boundNames, List.map_cons, List.toFinset_cons, Finset.mem_insert]
    by_cases hi : i = Compiler.probe (Compiler.hash name.bytes) k
    · rw [hi, symbols_bindAt_self] at hs
      cases hs
      exact Or.inl rfl
    · rw [symbols_bindAt_of_ne _ _ _ hi] at hs
      exact Or.inr (hr.listed i s hs)

end Represents

/-- One insertion. -/
theorem represents_insert {m : Bindings} {c : Compiler} (hr : Represents m c) (name : NameBuf)
    (value : Word) : exists m' c', m.insert name value = .ok m' ∧ Represents m' c' := by
  have hshows := Raw.Compiler.insertSymbol_shows hr.shows name value
  unfold Bindings.insert
  cases hinsert : c.insertSymbol name value with
  | ok c' =>
      rw [hinsert] at hshows
      obtain ⟨symbols, hraw, hsymbols⟩ := hshows
      rw [hraw]
      exact ⟨_, c', rfl, hr.bind hinsert hsymbols⟩
  | error e =>
      rw [hinsert] at hshows
      dsimp only at hshows
      rw [hshows]
      exact ⟨m, c, rfl, hr⟩

theorem represents_run (insertions : List (NameBuf × Word)) {m : Bindings} {c : Compiler}
    (hr : Represents m c) : exists m' c', m.run insertions = .ok m' ∧ Represents m' c' := by
  induction insertions generalizing m c with
  | nil => exact ⟨m, c, rfl, hr⟩
  | cons insertion rest ih =>
      obtain ⟨m1, c1, hinsert, hr1⟩ := represents_insert hr insertion.1 insertion.2
      obtain ⟨m2, c2, hrun, hr2⟩ := ih hr1
      refine ⟨m2, c2, ?_, hr2⟩
      show (m.insert insertion.1 insertion.2 >>= fun m => Bindings.run rest m) = _
      rw [hinsert]
      exact hrun

/-!
## The finite map
-/

theorem length_le_of_lookup {c : Compiler} {name : List Byte} {w : Word}
    (h : c.lookupSymbol name = some w) : name.length ≤ nameMax := by
  obtain ⟨i, s, _, rfl⟩ := lookupLoop_some h
  exact s.name.length_le

/-- After any insertions into an empty table: lookups read the last successful insertion
of the name, an insertion fails exactly for a new name and 32 bound ones and leaves the
table alone, and no lookup slices out of a slot. -/
theorem insertions_finiteMap (insertions : List (NameBuf × Word)) :
    exists m, Bindings.empty.run insertions = .ok m ∧
      (forall name, m.table.lookupSymbol name = .ok (m.bound.lookup name)) ∧
      (forall (name : NameBuf) (value : Word), exists result table,
        m.table.insertSymbol name.raw value = .ok (result, table) ∧
        (result = .error .symbolTableFull ↔
          m.bound.lookup name.bytes = none ∧ m.boundNames.card = symbolSlots) ∧
        (result = .ok () ∨ result = .error .symbolTableFull ∧ table = m.table)) ∧
      forall name : List Byte, nameMax < name.length -> m.table.lookupSymbol name = .ok none := by
  obtain ⟨m, c, hrun, hr⟩ := represents_run insertions represents_empty
  have hlookup : forall name, m.table.lookupSymbol name = .ok (c.lookupSymbol name) :=
    Raw.Compiler.lookupSymbol_shows hr.shows
  refine ⟨m, hrun, ?_, ?_, ?_⟩
  · intro name
    rw [hlookup, hr.lookup_eq]
  · intro name value
    have hshows := Raw.Compiler.insertSymbol_shows hr.shows name value
    have herror := hr.insert_error_iff name value
    cases hinsert : c.insertSymbol name value with
    | ok c' =>
        rw [hinsert] at hshows herror
        obtain ⟨symbols, hraw, _⟩ := hshows
        refine ⟨_, _, hraw, ?_, Or.inl rfl⟩
        rw [← herror]
        constructor
        · intro hfull
          cases hfull
        · intro hfull
          cases hfull
    | error e =>
        rw [hinsert] at hshows herror
        obtain ⟨rfl, _⟩ := insertLoop_error hinsert
        refine ⟨_, _, hshows, ?_, Or.inr ⟨rfl, rfl⟩⟩
        rw [← herror]
        exact ⟨fun _ => rfl, fun _ => rfl⟩
  · intro name hlong
    rw [hlookup]
    cases hfound : c.lookupSymbol name with
    | none => rfl
    | some w => exact absurd (length_le_of_lookup hfound) (Nat.not_le.mpr hlong)

end Compilation
end HolyRust
