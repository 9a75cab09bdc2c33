import HolyRust.Foundation.Ring
import HolyRust.Capabilities.Audit
import HolyRust.Drivers.Printing

/-!
# Dumping the audit log

`sys_audit` prints the slots of the ring in the order of the buffer.  No slot knows
whether it was ever written: the printer takes an address of zero for an empty slot.
-/

namespace HolyRust
namespace Drivers

open Foundation
open Capabilities

/-- Total events recorded since boot. -/
def totalAudits (log : AuditLog) : Word := log.count

/-- The raw ring buffer. -/
def entries (log : AuditLog) : List AuditEntry := List.ofFn log.buffer

/-- The line of one event. -/
def writeEntry (e : AuditEntry) : Except Panic (List Byte) := do
  let addr <- writeHexU32 e.addr
  let val <- writeHexU32 e.val
  let cycles <- writeDecU32 e.timestampCycles
  pure (ascii "ADDR: " ++ addr ++ ascii " | VAL: " ++ val ++ ascii " | CYCLES: " ++ cycles ++
    ascii "\r\n")

/-- The loop over the entries. -/
def writeEntries : List AuditEntry -> Except Panic (List Byte)
  | [] => pure []
  | e :: rest => do
      let line <- if e.addr ≠ 0#32 then writeEntry e else pure []
      let lines <- writeEntries rest
      pure (line ++ lines)

/-- What `sys_audit` puts out. -/
def handleAudit (log : AuditLog) : Except Panic (List Byte) := do
  let count <- writeDecU32 (totalAudits log)
  let lines <- writeEntries (entries log)
  pure (ascii "--- SUPERUSER AUDIT LOG ---\r\n" ++ ascii "Total Unsafe Operations: " ++ count ++
    ascii "\r\nRecent Events:\r\n" ++ lines)

/-!
## The text
-/

def entryText (e : AuditEntry) : List Byte :=
  ascii "ADDR: " ++ (ascii "0x" ++ hexText e.addr) ++ ascii " | VAL: " ++
    (ascii "0x" ++ hexText e.val) ++ ascii " | CYCLES: " ++
    Compilation.decimalText e.timestampCycles.toNat ++ ascii "\r\n"

/-- The dump that shows `shown` after a total of `total`. -/
def auditText (total : Nat) (shown : List AuditEntry) : List Byte :=
  ascii "--- SUPERUSER AUDIT LOG ---\r\n" ++ ascii "Total Unsafe Operations: " ++
    Compilation.decimalText total ++ ascii "\r\nRecent Events:\r\n" ++ shown.flatMap entryText

/-- What the printer takes for a recorded event. -/
def isShown (e : AuditEntry) : Bool := decide (e.addr ≠ 0#32)

theorem writeEntries_eq (es : List AuditEntry) :
    writeEntries es = .ok ((es.filter isShown).flatMap entryText) := by
  induction es with
  | nil => rfl
  | cons e rest ih =>
      have hentry : writeEntry e = .ok (entryText e) := by
        unfold writeEntry
        rw [writeHexU32_eq, writeHexU32_eq, writeDecU32_eq]
        rfl
      rw [writeEntries, hentry, ih]
      by_cases h : e.addr = 0#32
      · rw [if_neg (not_not_intro h), List.filter_cons_of_neg (by simp [isShown, h])]
        rfl
      · rw [if_pos h, List.filter_cons_of_pos (by simp [isShown, h]), List.flatMap_cons]
        rfl

theorem handleAudit_eq (log : AuditLog) :
    handleAudit log = .ok (auditText (totalAudits log).toNat ((entries log).filter isShown)) := by
  unfold handleAudit
  rw [writeDecU32_eq, writeEntries_eq]
  rfl

/-!
## The ring
-/

/-- The log after some events. -/
def logAfter (events : List AuditEntry) : AuditLog := events.foldl AuditLog.record AuditLog.new

/-- The last sixteen events, or all of them. -/
def lastEvents (events : List AuditEntry) : List AuditEntry := events.drop (events.length - 16)

/-- The contents of a slot that was never written. -/
def blankEntry : AuditEntry := { addr := 0#32, val := 0#32, timestampCycles := 0#32 }

theorem logAfter_concat (events : List AuditEntry) (e : AuditEntry) :
    logAfter (events ++ [e]) = (logAfter events).record e := by
  unfold logAfter
  rw [List.foldl_append]
  rfl

theorem entries_record (log : AuditLog) (e : AuditEntry) :
    entries (log.record e) = (entries log).set log.head.val e :=
  ofFn_set log.buffer log.head e

/-- Read from its head on, the ring is the end of the history, with blanks before it. -/
theorem rotate_entries (events : List AuditEntry) :
    (entries (logAfter events)).rotate (logAfter events).head.val =
      (List.replicate 16 blankEntry ++ events).drop events.length := by
  induction events using List.reverseRecOn with
  | nil => rfl
  | append_singleton events e ih =>
      have hlength : (entries (logAfter events)).length = 16 := List.length_ofFn
      have hhead : ((logAfter events).record e).head.val =
          ((logAfter events).head.val + 1) % 16 := by
        show ((logAfter events).head + 1 : Fin 16).val = _
        rw [Fin.val_add]
        rfl
      have hwrap : forall xs : List AuditEntry, xs.length = 16 -> forall n,
          xs.rotate (n % 16) = xs.rotate n := by
        intro xs hxs n
        rw [← hxs, List.rotate_mod]
      rw [logAfter_concat, entries_record, hhead,
        hwrap _ (by rw [List.length_set, hlength]),
        rotate_set_succ (by rw [hlength]; exact Fin.isLt _), ih, List.tail_drop,
        ← List.append_assoc, List.length_append, List.length_singleton]
      refine (List.drop_append_of_le_length ?_).symm
      rw [List.length_append, List.length_replicate]
      lia

theorem drop_padded (events : List AuditEntry) :
    (List.replicate 16 blankEntry ++ events).drop events.length =
      List.replicate (16 - events.length) blankEntry ++ lastEvents events := by
  rw [List.drop_append, List.drop_replicate, List.length_replicate]
  rfl

/-- The slots with an address other than zero are the last events with such an address. -/
theorem shown_perm (events : List AuditEntry) :
    ((entries (logAfter events)).filter isShown).Perm ((lastEvents events).filter isShown) := by
  have hperm : (entries (logAfter events)).Perm
      (List.replicate (16 - events.length) blankEntry ++ lastEvents events) := by
    rw [← drop_padded, ← rotate_entries]
    exact (List.rotate_perm _ _).symm
  have hblank : (List.replicate (16 - events.length) blankEntry).filter isShown = [] := by
    rw [List.filter_eq_nil_iff]
    intro e he
    rw [List.eq_of_mem_replicate he]
    decide
  have hfilter := hperm.filter isShown
  rw [List.filter_append, hblank, List.nil_append] at hfilter
  exact hfilter

/-- The count stops at the last value of `usize`. -/
theorem totalAudits_logAfter (events : List AuditEntry) :
    (totalAudits (logAfter events)).toNat = min events.length (2 ^ 32 - 1) := by
  induction events using List.reverseRecOn with
  | nil => rfl
  | append_singleton events e ih =>
      have hcount : totalAudits (logAfter (events ++ [e])) =
          AuditLog.saturatingSucc (totalAudits (logAfter events)) := by
        rw [logAfter_concat]
        rfl
      rw [hcount, AuditLog.saturatingSucc, List.length_append, List.length_singleton]
      by_cases h : (totalAudits (logAfter events)).toNat + 1 < 2 ^ 32
      · rw [if_pos h, BitVec.toNat_add_of_lt h, ih]
        rw [ih] at h
        show min events.length (2 ^ 32 - 1) + 1 = _
        lia
      · rw [if_neg h, ih]
        rw [ih] at h
        lia

/-!
## Line ends

Every event that is shown ends one line of the dump, and digits end none.
-/

def lineFeeds (text : List Byte) : Nat := text.count (Compilation.byte '\n')

theorem lineFeeds_append (text rest : List Byte) :
    lineFeeds (text ++ rest) = lineFeeds text + lineFeeds rest :=
  List.count_append

theorem lineFeeds_decimalText (n : Nat) : lineFeeds (Compilation.decimalText n) = 0 := by
  refine List.count_eq_zero_of_not_mem ?_
  intro hmem
  exact absurd ((Compilation.decimalText_digits n).right _ hmem) (by decide)

theorem lineFeeds_hexText (value : Word) : lineFeeds (hexText value) = 0 := by
  refine List.count_eq_zero_of_not_mem ?_
  intro hmem
  exact absurd (hexText_hexdigits hmem) (by decide)

theorem lineFeeds_entryText (e : AuditEntry) : lineFeeds (entryText e) = 1 := by
  unfold entryText
  simp only [lineFeeds_append, lineFeeds_hexText, lineFeeds_decimalText]
  decide

theorem lineFeeds_entries (shown : List AuditEntry) :
    lineFeeds (shown.flatMap entryText) = shown.length := by
  induction shown with
  | nil => rfl
  | cons e rest ih =>
      rw [List.flatMap_cons, lineFeeds_append, lineFeeds_entryText, ih, List.length_cons,
        Nat.add_comm]

theorem lineFeeds_auditText (total : Nat) (shown : List AuditEntry) :
    lineFeeds (auditText total shown) = 3 + shown.length := by
  unfold auditText
  simp only [lineFeeds_append, lineFeeds_decimalText, lineFeeds_entries]
  rfl

/-!
## The dump
-/

/-- The count is the number of events, and the dump shows the writes of the last sixteen,
each once and no others. -/
structure DumpsLast (events : List AuditEntry) : Prop where
  total : (totalAudits (logAfter events)).toNat = min events.length (2 ^ 32 - 1)
  shows : exists shown,
    (shown.map AuditEntry.write).Perm ((lastEvents events).map AuditEntry.write) ∧
      handleAudit (logAfter events) =
        .ok (auditText (totalAudits (logAfter events)).toNat shown)

/-- The lines of the dump tell how many of the last events were shown. -/
theorem addr_ne_zero_of_dumpsLast {events : List AuditEntry} (h : DumpsLast events)
    {e : AuditEntry} (he : e ∈ lastEvents events) : e.addr ≠ 0#32 := by
  obtain ⟨shown, hperm, htext⟩ := h.shows
  have hlines : ((lastEvents events).filter isShown).length = (lastEvents events).length := by
    rw [handleAudit_eq, Except.ok.injEq] at htext
    have hfeeds := congrArg lineFeeds htext
    have hlength := hperm.length_eq
    rw [lineFeeds_auditText, lineFeeds_auditText, (shown_perm events).length_eq] at hfeeds
    rw [List.length_map, List.length_map] at hlength
    lia
  have hshown := List.length_filter_eq_length_iff.mp hlines e he
  exact of_decide_eq_true hshown

/-- The dump is right exactly when none of the last events was at address zero. -/
theorem dumpsLast_iff (events : List AuditEntry) :
    DumpsLast events ↔ forall e, e ∈ lastEvents events -> e.addr ≠ 0#32 := by
  constructor
  · intro h e he
    exact addr_ne_zero_of_dumpsLast h he
  · intro hnonzero
    have hall : (lastEvents events).filter isShown = lastEvents events :=
      List.filter_eq_self.mpr fun e he => decide_eq_true (hnonzero e he)
    have hperm := shown_perm events
    rw [hall] at hperm
    exact ⟨totalAudits_logAfter events, _, hperm.map _, handleAudit_eq _⟩

/-- A write to address zero is recorded and not shown. -/
theorem not_dumpsLast_zero :
    ¬ DumpsLast [{ addr := 0#32, val := 5#32, timestampCycles := 100#32 }] := by
  intro h
  exact addr_ne_zero_of_dumpsLast h List.mem_cons_self rfl

end Drivers
end HolyRust
