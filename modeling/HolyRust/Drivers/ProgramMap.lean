import HolyRust.Drivers.StoreWindow

/-!
# The program store as a map

Stores fill the slots from the first one on and never touch one again, so the
window is the list of all stores, oldest first.  `load` takes the first slot
whose name begins with the given one.  That is the latest store of this name only
where no other name gets in the way and a second store changes nothing.
-/

namespace HolyRust
namespace Drivers

open Foundation
open Capabilities
open Kernel
open Compilation
open Execution

/-!
## Histories of stores
-/

section Log

variable {κ ν : Type}

/-- The value that was put last under `k`. -/
def newest [DecidableEq κ] (log : List (κ × ν)) (k : κ) : Option ν :=
  (log.reverse.find? fun e => decide (e.1 = k)).map Prod.snd

/-- The value of the first entry whose key is accepted. -/
def oldest (accepts : κ -> Bool) (log : List (κ × ν)) : Option ν :=
  (log.find? fun e => accepts e.1).map Prod.snd

theorem mem_of_newest [DecidableEq κ] {log : List (κ × ν)} {k : κ} {v : ν}
    (h : newest log k = some v) : (k, v) ∈ log := by
  obtain ⟨e, hfind, rfl⟩ := Option.map_eq_some_iff.mp h
  have hkey := List.find?_some hfind
  rw [decide_eq_true_eq] at hkey
  subst hkey
  exact List.mem_reverse.mp (List.mem_of_find?_eq_some hfind)

/-- The oldest accepted entry carries what was put last under `k`. -/
def OldestIsNewest [DecidableEq κ] (accepts : κ -> Bool) (log : List (κ × ν)) (k : κ) : Prop :=
  forall before e after, log = before ++ e :: after -> accepts e.1 = true ->
    (forall e', e' ∈ before -> accepts e'.1 = false) -> newest log k = some e.2

theorem oldest_eq_newest_iff [DecidableEq κ] {accepts : κ -> Bool} {log : List (κ × ν)} {k : κ}
    (hk : accepts k = true) :
    oldest accepts log = newest log k ↔ OldestIsNewest accepts log k := by
  unfold oldest
  constructor
  · rintro heq before e after rfl haccepts hbefore
    rw [← heq, List.find?_append, List.find?_eq_none.mpr (by simpa using hbefore)]
    simp [haccepts]
  · intro hnewest
    cases hfind : log.find? fun e => accepts e.1 with
    | none =>
        cases hlast : newest log k with
        | none => rfl
        | some v =>
            have hnot := List.find?_eq_none.mp hfind _ (mem_of_newest hlast)
            exact absurd hk hnot
    | some e =>
        obtain ⟨haccepts, before, after, hsplit, hbefore⟩ :=
          List.find?_eq_some_iff_append.mp hfind
        exact (hnewest before e after hsplit haccepts (by simpa using hbefore)).symm

end Log

/-!
## The window

Slot `i` holds the store number `i`, and the slots after the last store are empty.
-/

/-- A name and the body that was stored under it. -/
abbrev Entry := List Byte × List Word

def SlotIs (mem : Mem) (i : Nat) : Option Entry -> Prop
  | some e => load i slotWords mem = .ok (padName e.1, e.2)
  | none => load i 0 mem = .error .notFound

structure Represents (stores : List Entry) (mem : Mem) : Prop where
  slots : forall i, i < maxPrograms -> SlotIs mem i stores[i]?
  short : forall e, e ∈ stores -> e.2.length ≤ fnBodyWords

/-- `probe[..name.len()] == *name`, where `probe` holds the name `found`. -/
def nameMatches (name found : List Byte) : Bool :=
  decide ((padName found).take name.length = name)

theorem nameMatches_self {name : List Byte} (h : name.length ≤ nameMax) :
    nameMatches name name = true := by
  unfold nameMatches padName
  rw [decide_eq_true_eq, ← List.map_take, List.take_range, Nat.min_eq_left h]
  apply List.ext_getElem
  · simp
  · intro i hi hi'
    simp [List.getD_eq_getElem?_getD, hi']

theorem slotIs_sameWindow {mem mem' : Mem} {i : Nat} {e : Option Entry}
    (hsame : mem.SameWindow (slotStart i) (slotUsed i) mem')
    (hshort : forall entry, e = some entry -> entry.2.length ≤ fnBodyWords)
    (h : SlotIs mem i e) : SlotIs mem' i e := by
  cases e with
  | some entry => exact load_sameWindow hsame h (hshort entry rfl)
  | none =>
      have hused := slotUsed_eq i
      have hempty := load_notFound_iff.mp h
      rw [hsame.read32 (Nat.le_refl _) (by lia)] at hempty
      exact load_notFound_iff.mpr hempty

theorem represents_sameWindow {stores : List Entry} {mem mem' : Mem}
    (hsame : mem'.SameWindow pstoreBase pstoreTop mem) (h : Represents stores mem) :
    Represents stores mem' where
  slots := by
    intro i hi
    have hwindow : mem.SameWindow (slotStart i) (slotUsed i) mem' := by
      intro b hlo hhi
      have hbase : pstoreBase ≤ slotStart i := Nat.le_add_right _ _
      exact (hsame b (hbase.trans hlo) (Nat.lt_of_lt_of_le hhi (slotUsed_le hi))).symm
    refine slotIs_sameWindow hwindow ?_ (h.slots i hi)
    intro entry hentry
    exact h.short entry (List.mem_of_getElem? hentry)
  short := h.short

/-- The search finds the oldest store whose name matches. -/
theorem findStored_eq {stores : List Entry} {mem : Mem} (h : Represents stores mem)
    (hlen : stores.length ≤ maxPrograms) (name : List Byte) {n i : Nat}
    (hn : i + n = maxPrograms) :
    findStored mem name n i = oldest (nameMatches name) (stores.drop i) := by
  unfold oldest
  induction n generalizing i with
  | zero =>
      rw [List.drop_eq_nil_of_le (by lia)]
      rfl
  | succ n ih =>
      have hslot := h.slots i (by lia)
      rw [findStored]
      cases hentry : stores[i]? with
      | some e =>
          rw [hentry] at hslot
          have hload : load i slotWords mem = .ok (padName e.1, e.2) := hslot
          obtain ⟨hi, rfl⟩ := List.getElem?_eq_some_iff.mp hentry
          rw [hload, List.drop_eq_getElem_cons hi, List.find?_cons]
          by_cases hmatch : (padName stores[i].1).take name.length = name
          · simp [nameMatches, hmatch]
          · simp only [if_neg hmatch]
            rw [ih (by lia)]
            simp [nameMatches, hmatch]
      | none =>
          rw [hentry] at hslot
          have hload : load i slotWords mem = .error .notFound :=
            load_notFound_iff.mpr (load_notFound_iff.mp hslot)
          have hi := List.getElem?_eq_none_iff.mp hentry
          simp only [hload]
          rw [ih (by lia), List.drop_eq_nil_of_le hi, List.drop_eq_nil_of_le (by lia)]

/-- The next store goes to the slot after the last one. -/
theorem freeSlot_eq {stores : List Entry} {mem : Mem} (h : Represents stores mem)
    (hlen : stores.length < maxPrograms) : freeSlot mem = some stores.length := by
  unfold freeSlot
  rw [List.find?_range_eq_some]
  have hslot := h.slots stores.length hlen
  rw [List.getElem?_eq_none (Nat.le_refl _)] at hslot
  have hempty : load stores.length 0 mem = .error .notFound := hslot
  refine ⟨by simpa using hempty, by simpa using hlen, ?_⟩
  intro j hj
  have hslot := h.slots j (by lia)
  rw [List.getElem?_eq_getElem hj] at hslot
  have hload : load j slotWords mem = .ok _ := hslot
  have hused : load j 0 mem ≠ .error .notFound := by
    intro hempty
    rw [load_notFound_iff.mpr (load_notFound_iff.mp hempty)] at hload
    cases hload
  simpa using hused

theorem represents_save {stores : List Entry} {mem mem' : Mem} {name : List Byte}
    {words : List Word} (h : Represents stores mem) (hlen : stores.length < maxPrograms)
    (hname : name ≠ []) (hwords : words.length ≤ fnBodyWords)
    (hsave : save stores.length name words mem = .ok mem') :
    Represents (stores ++ [(name, words)]) mem' where
  slots := by
    intro i hi
    by_cases heq : i = stores.length
    · subst heq
      rw [List.getElem?_concat_length]
      exact load_of_save hsave hi hname
    · have hentry : (stores ++ [(name, words)])[i]? = stores[i]? := by
        rw [List.getElem?_append]
        split
        · rfl
        · rename_i hout
          rw [List.getElem?_eq_none (Nat.not_lt.mp hout)]
          exact List.getElem?_eq_none (by simp; lia)
      rw [hentry]
      have hwindow : mem.SameWindow (slotStart i) (slotUsed i) mem' :=
        fun b hlo hhi => (save_otherSlot hsave hlen hi heq hwords b hlo hhi).symm
      refine slotIs_sameWindow hwindow ?_ (h.slots i hi)
      intro entry hentry
      exact h.short entry (List.mem_of_getElem? hentry)
  short := by
    intro e he
    rcases List.mem_append.mp he with hold | hnew
    · exact h.short e hold
    · rw [List.mem_singleton.mp hnew]
      exact hwords

/-!
## Storing and loading
-/

theorem ne_nil_of_exportFn {c : Compiler} {name : List Byte} {capacity : Nat} {ws : List Word}
    (h : c.exportFn name capacity = some ws) : name ≠ [] := by
  unfold Compiler.exportFn at h
  split at h
  · cases h
  · rename_i i hfind
    have hslot := List.find?_some hfind
    rw [Bool.and_eq_true, decide_eq_true_eq] at hslot
    have hpos := of_decide_eq_true hslot.left
    rw [hslot.right] at hpos
    exact List.length_pos_iff.mp hpos

theorem represents_doStore {stores : List Entry} {name : NameBuf} {words : List Word}
    {s : Session} (h : Represents stores s.machine.mem) (hlen : stores.length < maxPrograms)
    (hexport : s.comp.exportFn name.bytes maxStreamWords = some words) :
    Represents (stores ++ [(name.bytes, words)]) (doStore name s).machine.mem := by
  have hwords := length_exportFn hexport
  have hslot : slotWords = 64 := rfl
  have hbody : fnBodyWords = 32 := rfl
  obtain ⟨mem', hsave⟩ := @exists_save name.bytes words name.length_le (by lia) stores.length
    s.machine.mem
  unfold doStore
  simp only [hexport, freeSlot_eq h hlen, hsave]
  exact represents_save h hlen (ne_nil_of_exportFn hexport) hwords hsave

/-- What `load` prints; the search of the ARM build never ends with `NoStore`. -/
inductive LoadReport where
  | loaded
  | importFailed
  | notFound
deriving DecidableEq, Repr

def loadReport (name : NameBuf) (s : Session) : LoadReport :=
  match findStored s.machine.mem name.bytes maxPrograms 0 with
  | none => .notFound
  | some words =>
      match s.comp.importFn name.bytes words with
      | .ok _ => .loaded
      | .error _ => .importFailed

/-- From `s` to `s'` the body that was stored last under exactly this name is
installed; without one, nothing is found and nothing changes. -/
def LoadsNewest (stores : List Entry) (name : NameBuf) (s s' : Session) : Prop :=
  match newest stores name.bytes with
  | some body => loadReport name s = .loaded ∧
      exists i fits, (s.comp.fns i).name.bytes.length = 0 ∧
        s'.comp = s.comp.setFn i ⟨name, body, fits⟩
  | none => loadReport name s = .notFound ∧ s'.comp = s.comp

theorem importFn_of_free {c : Compiler} {name : NameBuf} {words : List Word}
    (hlacks : c.findFn name.bytes = none)
    (hfree : exists i, (c.fns i).name.bytes.length = 0) (hwords : words.length ≤ fnBodyWords) :
    exists i, (c.fns i).name.bytes.length = 0 ∧
      c.importFn name.bytes words = .ok (c.setFn i ⟨name, words, hwords⟩) := by
  obtain ⟨i, halloc⟩ := allocFnSlot_of_free hlacks hfree
  obtain ⟨_, hempty⟩ := allocFnSlot_ok halloc
  refine ⟨i, hempty, ?_⟩
  have hbuf : NameBuf.fromSlice name.bytes = .ok name := by
    unfold NameBuf.fromSlice
    rw [dif_pos name.length_le]
  unfold Compiler.importFn
  rw [if_neg (Nat.not_lt.mpr name.length_le), dif_pos hwords, hbuf]
  simp only [halloc]

theorem body_of_setFn_eq {c : Compiler} {i j : Fin maxFns} {slot slot' : FnSlot}
    (hfree : (c.fns i).name.bytes.length = 0) (hname : slot.name.bytes ≠ [])
    (h : c.setFn i slot = c.setFn j slot') : slot = slot' := by
  have hat : (c.setFn i slot).fns i = (c.setFn j slot').fns i := by rw [h]
  unfold Compiler.setFn at hat
  simp only [if_true] at hat
  split at hat
  · exact hat
  · rw [hat] at hname
    exact absurd (List.length_eq_zero_iff.mp hfree) hname

/-- Where there is room, `load` keeps the rule exactly when its search does. -/
theorem loadsNewest_iff {stores : List Entry} {name : NameBuf} {s : Session}
    (hnames : forall e, e ∈ stores -> e.1 ≠ [])
    (hlacks : s.comp.findFn name.bytes = none)
    (hfree : exists i, (s.comp.fns i).name.bytes.length = 0)
    (hshort : forall words, findStored s.machine.mem name.bytes maxPrograms 0 = some words ->
      words.length ≤ fnBodyWords) :
    LoadsNewest stores name s (doLoad name s) ↔
      findStored s.machine.mem name.bytes maxPrograms 0 = newest stores name.bytes := by
  unfold LoadsNewest loadReport doLoad
  cases hfound : findStored s.machine.mem name.bytes maxPrograms 0 with
  | none =>
      cases hnewest : newest stores name.bytes with
      | none => simp
      | some body => simp
  | some words =>
      obtain ⟨i, hempty, himport⟩ := importFn_of_free hlacks hfree (hshort words hfound)
      simp only [himport]
      cases hnewest : newest stores name.bytes with
      | none => simp
      | some body =>
          have hname : name.bytes ≠ [] := hnames _ (mem_of_newest hnewest)
          constructor
          · rintro ⟨_, j, fits, hj, hset⟩
            have hslots := body_of_setFn_eq hempty hname hset
            injection hslots with _ hbodies
            rw [hbodies]
          · intro heq
            cases heq
            exact ⟨trivial, i, hshort words hfound, hempty, rfl⟩

/-!
## Runs with resets
-/

/-- A line is typed, or the board is reset. -/
inductive Event where
  | line (input : Input)
  | reset

/-- A reset starts with a new compiler and keeps the window of the store. -/
inductive StepOrReset (b : Build) (engine : Engine) : Session -> Event -> Session -> Prop where
  | line {s s' : Session} {input : Input} :
      Step b engine s input s' -> StepOrReset b engine s (.line input) s'
  | reset {s s' : Session} :
      s'.comp = Compiler.new -> Keeps pstoreBase pstoreTop s s' ->
      StepOrReset b engine s .reset s'

/-- What the line of a transition stores. -/
def storedBy (b : Build) (tr : Transition Session Event) : Option Entry :=
  match tr.label with
  | .reset => none
  | .line input =>
      match compileLine b input tr.before with
      | some (.ok (.store name) ps) =>
          (ps.comp.exportFn name.bytes maxStreamWords).map fun words => (name.bytes, words)
      | _ => none

/-- All stores of a run, oldest first. -/
def stores (b : Build) (past : List (Transition Session Event)) : List Entry :=
  past.reverse.filterMap (storedBy b)

/-- A line whose stores go to user memory, or a reset. -/
def EventStoresToUser (b : Build) (tr : Transition Session Event) : Prop :=
  match tr.label with
  | .reset => True
  | .line input => StoresToUser b ⟨tr.before, input, tr.after⟩

theorem stores_cons (b : Build) (tr : Transition Session Event)
    (past : List (Transition Session Event)) :
    stores b (tr :: past) = stores b past ++ (storedBy b tr).toList := by
  unfold stores
  rw [List.reverse_cons, List.filterMap_append]
  cases h : storedBy b tr <;> simp [h]

theorem storedBy_eq_none {b : Build} {s s' : Session} {input : Input}
    (h : forall name, accepted b input s ≠ some (.store name)) :
    storedBy b ⟨s, .line input, s'⟩ = none := by
  unfold storedBy
  simp only
  split
  · rename_i name ps hcompile
    have haccepted : accepted b input s = some (.store name) := by
      unfold accepted
      rw [hcompile]
    exact absurd haccepted (h name)
  · rfl

theorem storedBy_store {b : Build} {s s' : Session} {input : Input} {name : NameBuf}
    {ps : ParseState} (hparse : parse (s.env b input) s.comp input.line = .ok (.store name) ps)
    (haccepted : accepted b input s = some (.store name)) :
    storedBy b ⟨s, .line input, s'⟩ =
      (ps.comp.exportFn name.bytes maxStreamWords).map fun words => (name.bytes, words) := by
  unfold storedBy
  simp only [compileLine_of_accepted hparse haccepted]

theorem represents_unstored {b : Build} {s s' : Session} {event : Event}
    {past : List (Transition Session Event)} (h : Represents (stores b past) s.machine.mem)
    (hnone : storedBy b ⟨s, event, s'⟩ = none) (hkeeps : Keeps pstoreBase pstoreTop s s') :
    Represents (stores b (⟨s, event, s'⟩ :: past)) s'.machine.mem := by
  rw [stores_cons, hnone, Option.toList_none, List.append_nil]
  exact represents_sameWindow hkeeps h

theorem represents_store {b : Build} {s : Session} {input : Input} {name : NameBuf}
    {ps : ParseState} {past : List (Transition Session Event)}
    (h : Represents (stores b past) s.machine.mem)
    (hparse : parse (s.env b input) s.comp input.line = .ok (.store name) ps)
    (haccepted : accepted b input s = some (.store name))
    (hlen : (stores b (⟨s, .line input, doStore name { s with comp := ps.comp }⟩ ::
      past)).length ≤ maxPrograms) :
    Represents (stores b (⟨s, .line input, doStore name { s with comp := ps.comp }⟩ :: past))
      (doStore name { s with comp := ps.comp }).machine.mem := by
  rw [stores_cons, storedBy_store hparse haccepted] at hlen ⊢
  cases hexport : ps.comp.exportFn name.bytes maxStreamWords with
  | none =>
      have hkept : doStore name { s with comp := ps.comp } = { s with comp := ps.comp } := by
        unfold doStore
        simp only [hexport]
      rw [hkept, Option.map_none, Option.toList_none, List.append_nil]
      exact h
  | some words =>
      rw [hexport, Option.map_some, Option.toList_some, List.length_append,
        List.length_singleton] at hlen
      exact represents_doStore h hlen hexport

theorem represents_line {b : Build} (harm : b.target = .arm) {engine : Engine} {s s' : Session}
    {input : Input} {past : List (Transition Session Event)}
    (h : Represents (stores b past) s.machine.mem) (hstep : Step b engine s input s')
    (huser : StoresToUser b ⟨s, input, s'⟩)
    (hlen : (stores b (⟨s, .line input, s'⟩ :: past)).length ≤ maxPrograms) :
    Represents (stores b (⟨s, .line input, s'⟩ :: past)) s'.machine.mem := by
  obtain ⟨heval, haccess⟩ := evalLine_of_step hstep huser
  rcases evalLine_cases heval with
    ⟨rfl, hnone⟩ | ⟨outcome, ps, hparse, haccepted, hexec⟩ | ⟨e, ps, _, hnone, rfl⟩
  · exact represents_unstored h (storedBy_eq_none (by rw [hnone]; exact nofun)) (keeps_refl _)
  · by_cases hstore : exists name, outcome = .store name
    · obtain ⟨name, rfl⟩ := hstore
      have hafter : s' = doStore name { s with comp := ps.comp } := by
        rw [← Option.some.inj hexec]
        unfold onArm
        rw [harm]
      subst hafter
      exact represents_store h hparse haccepted hlen
    · have hnone : forall name, accepted b input s ≠ some (.store name) := by
        intro name heq
        rw [haccepted] at heq
        exact hstore ⟨name, Option.some.inj heq⟩
      obtain ⟨hmakes, htargets⟩ := haccess outcome haccepted
      have hkeeps := keeps_pstore harm hexec hmakes htargets
        (fun name heq => hstore ⟨name, heq⟩)
      exact represents_unstored h (storedBy_eq_none hnone) hkeeps
  · exact represents_unstored h (storedBy_eq_none (by rw [hnone]; exact nofun)) (keeps_refl s)

/-- No slot is in use. -/
def EmptyStore (mem : Mem) : Prop :=
  forall i, i < maxPrograms -> load i 0 mem = .error .notFound

/-- After every run the window is the list of the stores. -/
theorem represents_run {b : Build} (harm : b.target = .arm) {engine : Engine}
    {start s : Session} {past : List (Transition Session Event)}
    (hrun : Trail (StepOrReset b engine) start past s) (hempty : EmptyStore start.machine.mem)
    (huser : forall tr, tr ∈ past -> EventStoresToUser b tr)
    (hlen : (stores b past).length ≤ maxPrograms) :
    Represents (stores b past) s.machine.mem := by
  refine Trail.invariant
    (fun past s => (stores b past).length ≤ maxPrograms -> Represents (stores b past) s.machine.mem)
    (EventStoresToUser b) ?_ ?_ hrun huser hlen
  · intro _
    exact ⟨hempty, fun e he => by cases he⟩
  · intro past s event s' hpast hstep hallowed hlen'
    have hshorter : (stores b past).length ≤ maxPrograms := by
      rw [stores_cons, List.length_append] at hlen'
      lia
    cases hstep with
    | line hline => exact represents_line harm (hpast hshorter) hline hallowed hlen'
    | reset _ hkeeps => exact represents_unstored (hpast hshorter) rfl hkeeps

theorem names_of_stores {b : Build} {past : List (Transition Session Event)} {e : Entry}
    (h : e ∈ stores b past) : e.1 ≠ [] := by
  obtain ⟨tr, _, hstored⟩ := List.mem_filterMap.mp h
  unfold storedBy at hstored
  split at hstored
  · cases hstored
  · split at hstored
    · obtain ⟨words, hexport, rfl⟩ := Option.map_eq_some_iff.mp hstored
      exact ne_nil_of_exportFn hexport
    · cases hstored

/-- The name and the compiler of a line that loads. -/
def loadLine (b : Build) (input : Input) (s : Session) : Option (NameBuf × Compiler) :=
  match compileLine b input s with
  | some (.ok (.load name) ps) => some (name, ps.comp)
  | _ => none

theorem evalLine_loadLine {b : Build} (harm : b.target = .arm) {input : Input} {s : Session}
    {name : NameBuf} {c : Compiler} (h : loadLine b input s = some (name, c)) :
    evalLine b input s = some (doLoad name { s with comp := c }) := by
  unfold loadLine at h
  split at h
  · rename_i name' ps hcompile
    obtain ⟨rfl, rfl⟩ := Prod.mk.inj (Option.some.inj h)
    unfold evalLine
    simp only [hcompile, execute, onArm, harm]
  · cases h

/-- After any run from an empty store, a `load` with room for its body keeps the rule
exactly when the oldest store whose name begins with the given one carries the body
that was stored last under that very name. -/
theorem loadsNewest_iff_oldestIsNewest {b : Build} (harm : b.target = .arm) {engine : Engine}
    {start s s' : Session} {past : List (Transition Session Event)}
    (hrun : Trail (StepOrReset b engine) start past s) (hempty : EmptyStore start.machine.mem)
    (huser : forall tr, tr ∈ past -> EventStoresToUser b tr)
    (hlen : (stores b past).length ≤ maxPrograms) {input : Input} {name : NameBuf} {c : Compiler}
    (hload : loadLine b input s = some (name, c)) (heval : evalLine b input s = some s')
    (hlacks : c.findFn name.bytes = none)
    (hfree : exists i, (c.fns i).name.bytes.length = 0) :
    LoadsNewest (stores b past) name { s with comp := c } s' ↔
      OldestIsNewest (nameMatches name.bytes) (stores b past) name.bytes := by
  have hrep := represents_run harm hrun hempty huser hlen
  have hfound : findStored s.machine.mem name.bytes maxPrograms 0 =
      oldest (nameMatches name.bytes) (stores b past) :=
    findStored_eq hrep hlen name.bytes (Nat.zero_add _)
  have hshort : forall words, findStored s.machine.mem name.bytes maxPrograms 0 = some words ->
      words.length ≤ fnBodyWords := by
    intro words hwords
    rw [hfound] at hwords
    obtain ⟨e, hfind, rfl⟩ := Option.map_eq_some_iff.mp hwords
    exact hrep.short e (List.mem_of_find?_eq_some hfind)
  rw [evalLine_loadLine harm hload] at heval
  cases heval
  rw [loadsNewest_iff (s := { s with comp := c }) (fun e he => names_of_stores he) hlacks hfree
    hshort, ← oldest_eq_newest_iff (nameMatches_self name.length_le)]
  exact Eq.congr_left hfound

def newCompiler (s : Session) : Session := { s with comp := .new }

theorem step_newCompiler (b : Build) (engine : Engine) (s : Session) :
    StepOrReset b engine s .reset (newCompiler s) :=
  .reset rfl (keeps_refl s)

/-- A function is stored and the board reset. -/
def afterReset : Session :=
  newCompiler (typeLine .arm (typeLine .arm .blank "fn f() { poke 0x20000000 1; }") "store f;")

theorem run_afterReset :
    exists past, Trail (StepOrReset .arm .native) .blank past afterReset ∧
      (forall tr, tr ∈ past -> EventStoresToUser .arm tr) ∧
      stores .arm past = [(ascii "f", Block.words .inFlash (.poke 0x20000000#32 1#32))] := by
  have hdefine : StepOrReset .arm .native .blank (.line (typed "fn f() { poke 0x20000000 1; }"))
      (typeLine .arm .blank "fn f() { poke 0x20000000 1; }") :=
    .line (step_typed .native (by decide +kernel))
  have hstore : StepOrReset .arm .native (typeLine .arm .blank "fn f() { poke 0x20000000 1; }")
      (.line (typed "store f;"))
      (typeLine .arm (typeLine .arm .blank "fn f() { poke 0x20000000 1; }") "store f;") :=
    .line (step_typed .native (by decide +kernel))
  have hreset : StepOrReset .arm .native
      (typeLine .arm (typeLine .arm .blank "fn f() { poke 0x20000000 1; }") "store f;") .reset
      afterReset :=
    step_newCompiler .arm .native _
  refine ⟨_, Trail.snoc (Trail.snoc (Trail.snoc Trail.nil hdefine) hstore) hreset, ?_,
    by decide +kernel⟩
  intro tr htr
  rcases List.mem_cons.mp htr with rfl | htr
  · trivial
  rcases List.mem_cons.mp htr with rfl | htr
  · exact storesToUser_of_all (by decide +kernel)
  · rw [List.mem_singleton.mp htr]
    exact storesToUser_of_all (by decide +kernel)

theorem emptyStore_blank : EmptyStore Session.blank.machine.mem := by
  unfold EmptyStore
  decide +kernel

theorem loadsNewest_afterReset :
    exists past s name c s', Trail (StepOrReset .arm .native) .blank past s ∧
      loadLine .arm (typed "load f;") s = some (name, c) ∧
      newest (stores .arm past) name.bytes =
        some (Block.words .inFlash (.poke 0x20000000#32 1#32)) ∧
      LoadsNewest (stores .arm past) name { s with comp := c } s' := by
  obtain ⟨past, hrun, huser, hstores⟩ := run_afterReset
  have hline : (loadLine .arm (typed "load f;") afterReset).map (fun p =>
      (p.1.bytes, (p.2.findFn p.1.bytes).isNone,
        decide ((p.2.fns ⟨0, by decide⟩).name.bytes.length = 0))) =
      some (ascii "f", true, true) := by
    decide +kernel
  generalize afterReset = s at hrun hline
  obtain ⟨⟨name, c⟩, hload, hfacts⟩ := Option.map_eq_some_iff.mp hline
  obtain ⟨hname, hfacts⟩ := Prod.mk.inj hfacts
  obtain ⟨hlacks, hfree⟩ := Prod.mk.inj hfacts
  simp only at hname
  have hlast : oldest (nameMatches name.bytes) (stores .arm past) =
        newest (stores .arm past) name.bytes ∧
      newest (stores .arm past) name.bytes =
        some (Block.words .inFlash (.poke 0x20000000#32 1#32)) := by
    rw [hstores, hname]
    decide +kernel
  refine ⟨past, s, name, c, doLoad name { s with comp := c }, hrun, hload, hlast.right, ?_⟩
  refine (loadsNewest_iff_oldestIsNewest rfl hrun emptyStore_blank huser ?_ hload
    (evalLine_loadLine rfl hload) (Option.isNone_iff_eq_none.mp hlacks)
    ⟨⟨0, by decide⟩, of_decide_eq_true hfree⟩).mpr ?_
  · rw [hstores]
    decide
  · exact (oldest_eq_newest_iff (nameMatches_self name.length_le)).mp hlast.left

/-!
## A name that another one begins with
-/

/-- What the store promises of every run from `start`. -/
def StoreIsMap (b : Build) (engine : Engine) (start : Session) : Prop :=
  forall past s, Trail (StepOrReset b engine) start past s ->
    (forall tr, tr ∈ past -> EventStoresToUser b tr) ->
    (stores b past).length ≤ maxPrograms ->
    forall input name c s', loadLine b input s = some (name, c) ->
      evalLine b input s = some s' -> c.findFn name.bytes = none ->
      (exists i, (c.fns i).name.bytes.length = 0) ->
      LoadsNewest (stores b past) name { s with comp := c } s'

/-- `abc` is defined and stored. -/
def afterStore : Session :=
  typeLine .arm (typeLine .arm .blank "fn abc() { poke 0x20000000 1; }") "store abc;"

theorem run_afterStore :
    exists past, Trail (StepOrReset .arm .native) .blank past afterStore ∧
      (forall tr, tr ∈ past -> EventStoresToUser .arm tr) ∧
      stores .arm past = [(ascii "abc", Block.words .inFlash (.poke 0x20000000#32 1#32))] := by
  have hdefine : StepOrReset .arm .native .blank
      (.line (typed "fn abc() { poke 0x20000000 1; }"))
      (typeLine .arm .blank "fn abc() { poke 0x20000000 1; }") :=
    .line (step_typed .native (by decide +kernel))
  have hstore : StepOrReset .arm .native (typeLine .arm .blank "fn abc() { poke 0x20000000 1; }")
      (.line (typed "store abc;")) afterStore :=
    .line (step_typed .native (by decide +kernel))
  refine ⟨_, Trail.snoc (Trail.snoc Trail.nil hdefine) hstore, ?_, by decide +kernel⟩
  intro tr htr
  rcases List.mem_cons.mp htr with rfl | htr
  · exact storesToUser_of_all (by decide +kernel)
  · rw [List.mem_singleton.mp htr]
    exact storesToUser_of_all (by decide +kernel)

/-- Nothing was stored as `ab`, and yet `load ab;` installs something. -/
theorem not_storeIsMap_prefixName :
    EmptyStore Session.blank.machine.mem ∧ ¬ StoreIsMap .arm .native .blank := by
  refine ⟨emptyStore_blank, fun hmap => ?_⟩
  obtain ⟨past, hrun, huser, hstores⟩ := run_afterStore
  have hline : (loadLine .arm (typed "load ab;") afterStore).map (fun p =>
      (p.1.bytes, (p.2.findFn p.1.bytes).isNone,
        decide ((p.2.fns ⟨1, by decide⟩).name.bytes.length = 0),
        loadReport p.1 { afterStore with comp := p.2 })) =
      some (ascii "ab", true, true, .loaded) := by
    decide +kernel
  generalize afterStore = s at hrun hline
  obtain ⟨⟨name, c⟩, hload, hfacts⟩ := Option.map_eq_some_iff.mp hline
  obtain ⟨hname, hfacts⟩ := Prod.mk.inj hfacts
  obtain ⟨hlacks, hfacts⟩ := Prod.mk.inj hfacts
  obtain ⟨hfree, hreport⟩ := Prod.mk.inj hfacts
  simp only at hname hreport
  have hloads := hmap past s hrun huser (by rw [hstores]; decide) _ name c _ hload
    (evalLine_loadLine rfl hload) (Option.isNone_iff_eq_none.mp hlacks)
    ⟨⟨1, by decide⟩, of_decide_eq_true hfree⟩
  have hnone : newest [(ascii "abc", Block.words .inFlash (.poke 0x20000000#32 1#32))]
      (ascii "ab") = none := by
    decide +kernel
  unfold LoadsNewest at hloads
  rw [hstores, hname, hnone, hreport] at hloads
  cases hloads.left

end Drivers
end HolyRust
