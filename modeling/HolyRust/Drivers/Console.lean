import HolyRust.Foundation.Trail
import HolyRust.Compilation.Lexer

/-!
# Console input

Bytes reach the kernel through the data register of the UART.  The loop of
`repl::run` polls that register and feeds what it finds to the line editor; the
receive interrupt takes bytes out of the same register into `RX_RING`, which nothing
reads.  Interrupts come between any two accesses of the loop, and on ARM polling
takes two of them.

A byte carries the number of its arrival.  `arrivals`, `dropped` and `fed` are
ghosts.
-/

namespace HolyRust
namespace Drivers

open Foundation
open Compilation

/-- A received byte and its number in the order of arrival. -/
structure Arrival where
  number : Nat
  byte : Byte
deriving DecidableEq

/-!
## Receiving
-/

/-- The receive side: bytes nobody has read, and what the data register shows when
there are none. -/
structure Uart where
  waiting : List Arrival
  shown : Arrival

namespace Uart

/-- A read of the data register. -/
def readData (u : Uart) : Arrival × Uart :=
  match u.waiting with
  | [] => (u.shown, u)
  | a :: rest => (a, { waiting := rest, shown := a })

/-- Status and data in one go. -/
def pollGetByte (u : Uart) : Option Arrival × Uart :=
  if u.waiting = [] then (none, u) else (some u.readData.1, u.readData.2)

/-- `n` reads of the data register by somebody else. -/
def take (n : Nat) (u : Uart) : Uart :=
  match n with
  | 0 => u
  | n + 1 => take n u.readData.2

end Uart

def ringSize : Nat := 256

structure RxRing where
  buf : Nat -> Arrival
  head : Nat
  tail : Nat

namespace RxRing

/-- How many bytes have not been popped. -/
def unread (ring : RxRing) : Nat := (ring.head + ringSize - ring.tail) % ringSize

def push (ring : RxRing) (a : Arrival) : RxRing :=
  { ring with
    buf := fun i => if i = ring.head then a else ring.buf i
    head := (ring.head + 1) % ringSize }

/-- The ring keeps one slot empty. -/
theorem full_iff_unread {ring : RxRing} (htail : ring.tail < ringSize) :
    (ring.head + 1) % ringSize = ring.tail ↔ ring.unread = 255 := by
  unfold unread ringSize at *
  lia

end RxRing

/-!
## The loop
-/

inductive ReplState where
  | idle
  | reading
  | evaluating
  | printing
deriving DecidableEq, Repr

def lineMax : Nat := 128

/-- The next state and the edited line. -/
def feed (byte : Byte) (line : List Byte) : ReplState × List Byte :=
  let byte := if byte = Compilation.byte '\t' then Compilation.byte ' ' else byte
  if byte = Compilation.byte '\r' ∨ byte = Compilation.byte '\n' then (.evaluating, line)
  -- backspace and DEL
  else if byte = 0x08#8 ∨ byte = 0x7F#8 then (.reading, line.dropLast)
  -- Ctrl-U kills the line, Ctrl-C cancels it
  else if byte = 0x15#8 then (.reading, [])
  else if byte = 0x03#8 then (.idle, [])
  else if between ' ' '~' byte then
    (.reading, if line.length < lineMax then line ++ [byte] else line)
  else (.reading, line)

structure Console where
  uart : Uart
  ring : RxRing
  state : ReplState
  /-- The loop has seen the status flag and not read the data register yet. -/
  polled : Bool
  line : List Byte
  arrivals : List Arrival
  dropped : List Nat
  fed : List Arrival

namespace Console

/-- After the start-up drain. -/
def start (ring : RxRing) (shown : Arrival) : Console where
  uart := { waiting := [], shown := shown }
  ring := ring
  state := .idle
  polled := false
  line := []
  arrivals := []
  dropped := []
  fed := []

def receive (byte : Byte) (s : Console) : Console :=
  { s with
    uart := { s.uart with waiting := s.uart.waiting ++ [⟨s.arrivals.length, byte⟩] }
    arrivals := s.arrivals ++ [⟨s.arrivals.length, byte⟩] }

def irqHandler (s : Console) : Console :=
  match s.uart.pollGetByte with
  | (none, uart) => { s with uart := uart }
  | (some a, uart) =>
      if (s.ring.head + 1) % ringSize ≠ s.ring.tail then
        { s with uart := uart, ring := s.ring.push a }
      else
        { s with uart := uart, dropped := a.number :: s.dropped }

/-- The handler drops a byte only when 255 have not been popped. -/
theorem dropped_irqHandler {s : Console} (htail : s.ring.tail < ringSize)
    (h : s.irqHandler.dropped ≠ s.dropped) : s.ring.unread = 255 := by
  unfold irqHandler at h
  split at h
  · exact absurd rfl h
  · split at h
    · exact absurd rfl h
    · rename_i hfull
      exact (RxRing.full_iff_unread htail).mp (not_not.mp hfull)

def feedArrival (a : Arrival) (s : Console) : Console :=
  { s with
    state := (feed a.byte s.line).1
    line := (feed a.byte s.line).2
    fed := s.fed ++ [a] }

/-- The loop is where it polls. -/
def polls (s : Console) : Bool := decide (s.state = .idle ∨ s.state = .reading)

end Console

inductive ConsoleAction where
  | receive (byte : Byte)
  | irq
  /-- The loop reads `SR`; on RISC-V there is no such access. -/
  | pollStatus
  /-- The loop reads `DR` or `RXDATA`. -/
  | pollData
  /-- Compile the line, which may read the data register itself. -/
  | evaluate (taken : Nat)
  /-- Execute its outcome, which may do so too. -/
  | print (taken : Nat)
deriving DecidableEq

namespace Console

/-- `none` where the loop is not at that access. -/
def step (t : Target) (s : Console) : ConsoleAction -> Option Console
  | .receive byte => some (s.receive byte)
  | .irq => some s.irqHandler
  | .pollStatus =>
      match t with
      | .arm =>
          if s.polls && !s.polled then
            if s.uart.waiting = [] then some { s with state := .reading }
            else some { s with polled := true }
          else none
      | .riscv32 => none
  | .pollData =>
      match t with
      | .arm =>
          if s.polled then
            some (feedArrival s.uart.readData.1
              { s with uart := s.uart.readData.2, polled := false })
          else none
      | .riscv32 =>
          if s.polls then
            match s.uart.pollGetByte with
            | (none, uart) => some { s with uart := uart, state := .reading }
            | (some a, uart) => some (feedArrival a { s with uart := uart })
          else none
  | .evaluate taken =>
      if s.state = .evaluating then
        some { s with uart := s.uart.take taken, line := [], state := .printing }
      else none
  | .print taken =>
      if s.state = .printing then some { s with uart := s.uart.take taken, state := .idle }
      else none

/-- Any interleaving of arrivals, interrupts and the loop. -/
abbrev Interleaving (t : Target) (ring : RxRing) (shown : Arrival) :
    List (Transition Console ConsoleAction) -> Console -> Prop :=
  Trail (fun s a s' => step t s a = some s') (start ring shown)

/-- The bytes that are to be fed. -/
def due (s : Console) : List Arrival :=
  s.arrivals.filter fun a => !s.dropped.contains a.number

/-- The next access of the loop, if nothing else reads the data register. -/
def loopAction (t : Target) (s : Console) : ConsoleAction :=
  match s.state with
  | .evaluating => .evaluate 0
  | .printing => .print 0
  | _ =>
      match t with
      | .arm => if s.polled then .pollData else .pollStatus
      | .riscv32 => .pollData

/-- `n` accesses of the loop on its own. -/
def loopAlone (t : Target) : Nat -> Console -> Option Console
  | 0, s => some s
  | n + 1, s =>
      match step t s (loopAction t s) with
      | some s' => loopAlone t n s'
      | none => none

/-- Every byte was fed once and in order or is about to be. -/
structure DeliversInput (t : Target) (s : Console) : Prop where
  exactlyOnce : s.fed ++ s.uart.waiting = s.due
  reachesFeed : exists n s', loopAlone t n s = some s' ∧ s'.fed = s.due

/-!
## The loop on its own
-/

/-- A poll in flight is at home and finds its byte. -/
structure Ready (t : Target) (s : Console) : Prop where
  atPoll : s.polled = true -> s.polls = true
  found : s.polled = true -> s.uart.waiting ≠ []
  onArm : s.polled = true -> t = .arm

theorem ready_of_unpolled {t : Target} {s : Console} (h : s.polled = false) : Ready t s := by
  constructor
  all_goals
    intro hpolled
    rw [h] at hpolled
    cases hpolled

theorem polled_false {t : Target} {s : Console} (h : Ready t s) (hpolls : s.polls = false) :
    s.polled = false := by
  cases hpolled : s.polled with
  | false => rfl
  | true =>
      have hat := h.atPoll hpolled
      rw [hpolls] at hat
      cases hat

theorem loopAlone_trans {t : Target} {m n : Nat} {s s1 s2 : Console}
    (h1 : loopAlone t m s = some s1) (h2 : loopAlone t n s1 = some s2) :
    loopAlone t (m + n) s = some s2 := by
  induction m generalizing s with
  | zero =>
      cases h1
      rw [Nat.zero_add]
      exact h2
  | succ m ih =>
      rw [Nat.succ_add]
      unfold loopAlone at h1 ⊢
      cases hstep : step t s (loopAction t s) with
      | none =>
          rw [hstep] at h1
          cases h1
      | some next =>
          rw [hstep] at h1
          exact ih h1

theorem loopAlone_one {t : Target} {s s' : Console}
    (h : step t s (loopAction t s) = some s') : loopAlone t 1 s = some s' := by
  unfold loopAlone
  rw [h]
  rfl

/-- The loop gets back to polling; no byte is touched on the way. -/
theorem loopAlone_polls {t : Target} {s : Console} (h : Ready t s) :
    exists n s', loopAlone t n s = some s' ∧ s'.polls = true ∧ Ready t s' ∧ s'.uart = s.uart ∧
      s'.fed = s.fed := by
  have hprint : forall s : Console, s.state = .printing -> s.polled = false ->
      exists s', loopAlone t 1 s = some s' ∧ s'.polls = true ∧ Ready t s' ∧ s'.uart = s.uart ∧
        s'.fed = s.fed := by
    intro s hstate hpolled
    refine ⟨{ s with state := .idle }, ?_, rfl, ready_of_unpolled hpolled, rfl, rfl⟩
    apply loopAlone_one
    unfold loopAction
    simp only [hstate, step, if_pos]
    rfl
  cases hstate : s.state with
  | idle => exact ⟨0, s, rfl, by unfold polls; rw [hstate]; rfl, h, rfl, rfl⟩
  | reading => exact ⟨0, s, rfl, by unfold polls; rw [hstate]; rfl, h, rfl, rfl⟩
  | printing =>
      have hpolled := polled_false h (by unfold polls; rw [hstate]; rfl)
      obtain ⟨s', hrun, hrest⟩ := hprint s hstate hpolled
      exact ⟨1, s', hrun, hrest⟩
  | evaluating =>
      have hpolled := polled_false h (by unfold polls; rw [hstate]; rfl)
      obtain ⟨s', hrun, hrest⟩ := hprint { s with line := [], state := .printing } rfl hpolled
      refine ⟨1 + 1, s', loopAlone_trans (loopAlone_one ?_) hrun, hrest⟩
      unfold loopAction
      simp only [hstate, step, if_pos]
      rfl

theorem loopAction_polls {t : Target} {s : Console} (h : s.polls = true) :
    loopAction t s = match t with
      | .arm => if s.polled then .pollData else .pollStatus
      | .riscv32 => .pollData := by
  have hstate := of_decide_eq_true h
  unfold loopAction
  rcases hstate with hstate | hstate
  · rw [hstate]
  · rw [hstate]

theorem pollGetByte_cons {u : Uart} {a : Arrival} {rest : List Arrival}
    (h : u.waiting = a :: rest) : u.pollGetByte = (some a, { waiting := rest, shown := a }) := by
  unfold Uart.pollGetByte Uart.readData
  rw [h]
  exact if_neg (List.cons_ne_nil _ _)

theorem readData_cons {u : Uart} {a : Arrival} {rest : List Arrival}
    (h : u.waiting = a :: rest) : u.readData = (a, { waiting := rest, shown := a }) := by
  unfold Uart.readData
  rw [h]

/-- Then it feeds the byte that has waited longest. -/
theorem loopAlone_feeds {t : Target} {s : Console} (h : Ready t s) (hpolls : s.polls = true)
    {a : Arrival} {rest : List Arrival} (hwaiting : s.uart.waiting = a :: rest) :
    exists n s', loopAlone t n s = some s' ∧ Ready t s' ∧ s'.uart.waiting = rest ∧
      s'.fed = s.fed ++ [a] := by
  have haction := loopAction_polls (t := t) hpolls
  cases t with
  | riscv32 =>
      have hpolled : s.polled = false := by
        cases hpolled : s.polled with
        | false => rfl
        | true => cases h.onArm hpolled
      refine ⟨1, feedArrival a { s with uart := { waiting := rest, shown := a } },
        loopAlone_one ?_, ready_of_unpolled hpolled, rfl, rfl⟩
      rw [haction]
      simp only [step, if_pos hpolls, pollGetByte_cons hwaiting]
  | arm =>
      have hdata : forall s : Console, s.polls = true -> s.polled = true ->
          s.uart.waiting = a :: rest ->
          exists s', loopAlone .arm 1 s = some s' ∧ Ready .arm s' ∧ s'.uart.waiting = rest ∧
            s'.fed = s.fed ++ [a] := by
        intro s hpolls hpolled hwaiting
        refine ⟨feedArrival a { s with uart := { waiting := rest, shown := a }, polled := false },
          loopAlone_one ?_, ready_of_unpolled rfl, rfl, rfl⟩
        rw [loopAction_polls hpolls]
        simp only [hpolled, if_true, step, readData_cons hwaiting]
      cases hpolled : s.polled with
      | true =>
          obtain ⟨s', hrun, hrest⟩ := hdata s hpolls hpolled hwaiting
          exact ⟨1, s', hrun, hrest⟩
      | false =>
          obtain ⟨s', hrun, hrest⟩ := hdata { s with polled := true } hpolls rfl hwaiting
          refine ⟨1 + 1, s', loopAlone_trans (loopAlone_one ?_) hrun, hrest⟩
          rw [haction]
          simp [step, hpolls, hpolled, hwaiting]

/-- Left alone, the loop feeds all bytes that wait, in their order. -/
theorem loopAlone_drains {t : Target} {s : Console} (h : Ready t s) :
    exists n s', loopAlone t n s = some s' ∧ s'.fed = s.fed ++ s.uart.waiting := by
  cases hwaiting : s.uart.waiting with
  | nil => exact ⟨0, s, rfl, (List.append_nil _).symm⟩
  | cons a rest =>
      obtain ⟨m, s1, hrun1, hpolls, hready1, huart, hfed1⟩ := loopAlone_polls h
      obtain ⟨n, s2, hrun2, hready2, hwaiting2, hfed2⟩ := loopAlone_feeds hready1 hpolls
        (by rw [huart]; exact hwaiting)
      obtain ⟨k, s3, hrun3, hfed3⟩ := loopAlone_drains hready2
      refine ⟨m + n + k, s3, loopAlone_trans (loopAlone_trans hrun1 hrun2) hrun3, ?_⟩
      rw [hfed3, hfed2, hwaiting2, hfed1, List.append_assoc]
      rfl
termination_by s.uart.waiting.length
decreasing_by
  rw [hwaiting2, hwaiting]
  exact Nat.lt_succ_self _

/-!
## Whole runs
-/

/-- Neither the interrupt nor the line itself takes a byte that waits. -/
def SparesBytes (tr : Transition Console ConsoleAction) : Prop :=
  match tr.label with
  | .irq => tr.before.uart.waiting = []
  | .evaluate taken => taken = 0 ∨ tr.before.uart.waiting = []
  | .print taken => taken = 0 ∨ tr.before.uart.waiting = []
  | _ => True

/-- Nothing was dropped, and every byte was fed or waits. -/
structure Steady (t : Target) (s : Console) : Prop where
  noneDropped : s.dropped = []
  exactlyOnce : s.fed ++ s.uart.waiting = s.arrivals
  ready : Ready t s

theorem steady_start (t : Target) (ring : RxRing) (shown : Arrival) :
    Steady t (start ring shown) where
  noneDropped := rfl
  exactlyOnce := rfl
  ready := ready_of_unpolled rfl

theorem irqHandler_empty {s : Console} (h : s.uart.waiting = []) : s.irqHandler = s := by
  unfold irqHandler Uart.pollGetByte
  rw [if_pos h]

theorem waiting_take {u : Uart} {n : Nat} (h : n = 0 ∨ u.waiting = []) :
    (u.take n).waiting = u.waiting := by
  induction n with
  | zero => rfl
  | succ n ih =>
      rcases h with h | h
      · cases h
      · have hread : u.readData.2 = u := by
          unfold Uart.readData
          rw [h]
        unfold Uart.take
        rw [hread]
        exact ih (Or.inr h)

theorem steady_receive {t : Target} {s : Console} (h : Steady t s) (byte : Byte) :
    Steady t (s.receive byte) where
  noneDropped := h.noneDropped
  exactlyOnce := by
    show s.fed ++ (s.uart.waiting ++ [_]) = s.arrivals ++ [_]
    rw [← List.append_assoc, h.exactlyOnce]
  ready :=
    { atPoll := h.ready.atPoll
      found := by
        intro _ hnil
        exact List.cons_ne_nil _ _ (List.append_eq_nil_iff.mp hnil).right
      onArm := h.ready.onArm }

/-- Feeding the byte that has waited longest. -/
theorem steady_feed {t : Target} {s : Console} (h : Steady t s) {a : Arrival}
    {rest : List Arrival} (hwaiting : s.uart.waiting = a :: rest) :
    Steady t
      (feedArrival a { s with uart := { waiting := rest, shown := a }, polled := false }) where
  noneDropped := h.noneDropped
  exactlyOnce := by
    show s.fed ++ [a] ++ rest = s.arrivals
    rw [List.append_assoc, ← h.exactlyOnce, hwaiting]
    rfl
  ready := ready_of_unpolled rfl

/-- A line that leaves the data register alone. -/
theorem steady_line {t : Target} {s s' : Console} (h : Steady t s) (hpolled : s.polled = false)
    {taken : Nat} (htaken : taken = 0 ∨ s.uart.waiting = []) (huart : s'.uart = s.uart.take taken)
    (hpolled' : s'.polled = s.polled) (hfed : s'.fed = s.fed) (harrivals : s'.arrivals = s.arrivals)
    (hdropped : s'.dropped = s.dropped) : Steady t s' where
  noneDropped := by
    rw [hdropped]
    exact h.noneDropped
  exactlyOnce := by
    rw [huart, waiting_take htaken, hfed, harrivals]
    exact h.exactlyOnce
  ready := ready_of_unpolled (by rw [hpolled', hpolled])

/-- The steps by what they do. -/
inductive Moves (t : Target) (s : Console) : ConsoleAction -> Console -> Prop where
  | receive (byte : Byte) : Moves t s (.receive byte) (s.receive byte)
  | irq : Moves t s .irq s.irqHandler
  | idle {a : ConsoleAction} (hpolls : s.polls = true) (hwaiting : s.uart.waiting = []) :
      Moves t s a { s with state := .reading }
  | status (htarget : t = .arm) (hpolls : s.polls = true) (hwaiting : s.uart.waiting ≠ []) :
      Moves t s .pollStatus { s with polled := true }
  | dataArm (hpolled : s.polled = true) :
      Moves t s .pollData
        (feedArrival s.uart.readData.1 { s with uart := s.uart.readData.2, polled := false })
  | dataRiscv (htarget : t = .riscv32) (hpolls : s.polls = true) {a : Arrival}
      {rest : List Arrival} (hwaiting : s.uart.waiting = a :: rest) :
      Moves t s .pollData (feedArrival a { s with uart := { waiting := rest, shown := a } })
  | evaluate (taken : Nat) (hstate : s.state = .evaluating) :
      Moves t s (.evaluate taken)
        { s with uart := s.uart.take taken, line := [], state := .printing }
  | print (taken : Nat) (hstate : s.state = .printing) :
      Moves t s (.print taken) { s with uart := s.uart.take taken, state := .idle }

theorem moves_of_step {t : Target} {s s' : Console} {a : ConsoleAction}
    (h : step t s a = some s') : Moves t s a s' := by
  cases a with
  | receive byte =>
      cases h
      exact .receive byte
  | irq =>
      cases h
      exact .irq
  | pollStatus =>
      cases t with
      | riscv32 => cases h
      | arm =>
          simp only [step] at h
          split at h
          · rename_i hat
            rw [Bool.and_eq_true] at hat
            split at h
            · rename_i hwaiting
              cases h
              exact .idle hat.left hwaiting
            · rename_i hwaiting
              cases h
              exact .status rfl hat.left hwaiting
          · cases h
  | pollData =>
      cases t with
      | arm =>
          simp only [step] at h
          split at h
          · rename_i hpolled
            cases h
            exact .dataArm hpolled
          · cases h
      | riscv32 =>
          simp only [step] at h
          split at h
          · rename_i hpolls
            cases hwaiting : s.uart.waiting with
            | nil =>
                unfold Uart.pollGetByte at h
                rw [if_pos hwaiting] at h
                cases h
                exact .idle hpolls hwaiting
            | cons b rest =>
                rw [pollGetByte_cons hwaiting] at h
                cases h
                exact .dataRiscv rfl hpolls hwaiting
          · cases h
  | evaluate taken =>
      simp only [step] at h
      split at h
      · rename_i hstate
        cases h
        exact .evaluate taken hstate
      · cases h
  | print taken =>
      simp only [step] at h
      split at h
      · rename_i hstate
        cases h
        exact .print taken hstate
      · cases h

theorem steady_step {t : Target} {s s' : Console} {a : ConsoleAction} (h : Steady t s)
    (hstep : step t s a = some s') (hspares : SparesBytes ⟨s, a, s'⟩) : Steady t s' := by
  cases moves_of_step hstep with
  | receive byte => exact steady_receive h byte
  | irq =>
      rw [irqHandler_empty hspares]
      exact h
  | idle _ hwaiting =>
      have hpolled : s.polled = false :=
        Bool.eq_false_iff.mpr fun hpolled => h.ready.found hpolled hwaiting
      exact ⟨h.noneDropped, h.exactlyOnce, ready_of_unpolled hpolled⟩
  | status htarget hpolls hwaiting =>
      exact ⟨h.noneDropped, h.exactlyOnce, fun _ => hpolls, fun _ => hwaiting, fun _ => htarget⟩
  | dataArm hpolled =>
      cases hwaiting : s.uart.waiting with
      | nil => exact absurd hwaiting (h.ready.found hpolled)
      | cons a rest =>
          rw [readData_cons hwaiting]
          exact steady_feed h hwaiting
  | dataRiscv htarget _ hwaiting =>
      have hpolled : s.polled = false := by
        refine Bool.eq_false_iff.mpr fun hpolled => ?_
        have harm := h.ready.onArm hpolled
        rw [htarget] at harm
        cases harm
      have hfeed := steady_feed h hwaiting
      rw [← hpolled] at hfeed
      exact hfeed
  | evaluate taken hstate =>
      have hpolled := polled_false h.ready (by unfold polls; rw [hstate]; rfl)
      exact steady_line h hpolled hspares rfl rfl rfl rfl rfl
  | print taken hstate =>
      have hpolled := polled_false h.ready (by unfold polls; rw [hstate]; rfl)
      exact steady_line h hpolled hspares rfl rfl rfl rfl rfl

theorem due_of_steady {t : Target} {s : Console} (h : Steady t s) : s.due = s.arrivals := by
  unfold due
  rw [h.noneDropped]
  exact List.filter_eq_self.mpr fun _ _ => rfl

/-- In every run in which only the loop takes bytes out of the data register. -/
theorem deliversInput_of_sparesBytes {t : Target} {ring : RxRing} {shown : Arrival}
    {past : List (Transition Console ConsoleAction)} {s : Console}
    (hrun : Interleaving t ring shown past s) (hspares : forall tr, tr ∈ past -> SparesBytes tr) :
    DeliversInput t s := by
  have h : Steady t s := Trail.invariant (fun _ s => Steady t s) SparesBytes
    (steady_start t ring shown) (fun _ _ _ _ h hstep hspares => steady_step h hstep hspares)
    hrun hspares
  obtain ⟨n, s', halone, hfed⟩ := loopAlone_drains h.ready
  rw [h.exactlyOnce, ← due_of_steady h] at hfed
  refine ⟨?_, n, s', halone, hfed⟩
  rw [h.exactlyOnce, due_of_steady h]

/-- `RX_RING` as it is linked, and a data register that was never filled. -/
def fresh : Console :=
  start { buf := fun _ => ⟨0, 0#8⟩, head := 0, tail := 0 } ⟨0, 0#8⟩

/-- The return key, an interrupt that finds nothing, and an empty line. -/
theorem deliversInput_return : exists past s,
    Interleaving .arm fresh.ring fresh.uart.shown past s ∧
      (forall tr, tr ∈ past -> SparesBytes tr) ∧ s.fed = [⟨0, byte '\r'⟩] ∧
      DeliversInput .arm s := by
  have hplay : exists past s, play (step .arm) [] fresh
      [.receive (byte '\r'), .pollStatus, .pollData, .irq, .evaluate 0, .print 0] =
        some (past, s) ∧ (forall tr, tr ∈ past -> SparesBytes tr) ∧
      s.fed = [⟨0, byte '\r'⟩] := by
    refine ⟨_, _, rfl, ?_, rfl⟩
    simp only [List.forall_mem_cons]
    exact ⟨Or.inl rfl, Or.inl rfl, rfl, trivial, trivial, trivial, fun _ h => by cases h⟩
  obtain ⟨past, s, hplay, hspares, hfed⟩ := hplay
  have hrun := trail_play Trail.nil hplay
  exact ⟨past, s, hrun, hspares, hfed, deliversInput_of_sparesBytes hrun hspares⟩

/-- The interrupt takes the first of two bytes, the loop the second. -/
theorem not_deliversInput_interrupt : ¬ forall past s,
    Interleaving .arm fresh.ring fresh.uart.shown past s -> DeliversInput .arm s := by
  intro hall
  have hplay : exists past s, play (step .arm) [] fresh
      [.receive (byte 'a'), .irq, .receive (byte 'b'), .pollStatus, .pollData] =
        some (past, s) ∧ s.fed ++ s.uart.waiting = [⟨1, byte 'b'⟩] ∧
      s.due = [⟨0, byte 'a'⟩, ⟨1, byte 'b'⟩] := ⟨_, _, rfl, rfl, rfl⟩
  obtain ⟨past, s, hplay, hfed, hdue⟩ := hplay
  have honce := (hall past s (trail_play Trail.nil hplay)).exactlyOnce
  rw [hfed, hdue] at honce
  have hlength := congrArg List.length honce
  cases hlength

end Console

end Drivers
end HolyRust
