import HolyRust.Platform

/-!
# SuperUser audit log

A ring of sixteen records.  The cycle counter that stamps a record is hardware
and enters as an argument.
-/

namespace HolyRust
namespace Capabilities

structure AuditEntry where
  addr : Word
  val : Word
  timestampCycles : Word
deriving DecidableEq, Repr

/-- The write that an entry stands for. -/
def AuditEntry.write (e : AuditEntry) : Word × Word := (e.addr, e.val)

/-- The ring buffer; `head` is an index by type, as the code keeps it modulo 16. -/
structure AuditLog where
  buffer : Fin 16 -> AuditEntry
  head : Fin 16
  count : Word

namespace AuditLog

def new : AuditLog where
  buffer := fun _ => { addr := 0#32, val := 0#32, timestampCycles := 0#32 }
  head := 0
  count := 0#32

/-- `usize::saturating_add(1)`. -/
def saturatingSucc (n : Word) : Word :=
  if n.toNat + 1 < 2 ^ 32 then n + 1#32 else n

/-- Record a memory access event. -/
def recordEvent (log : AuditLog) (cycles addr val : Word) : AuditLog where
  buffer := fun i =>
    if i = log.head then
      { addr := addr, val := val, timestampCycles := cycles }
    else
      log.buffer i
  head := log.head + 1
  count := saturatingSucc log.count

/-- Record a whole event. -/
def record (log : AuditLog) (e : AuditEntry) : AuditLog :=
  log.recordEvent e.timestampCycles e.addr e.val

end AuditLog

end Capabilities
end HolyRust
