import HolyRust.Drivers.Console

/-!
# Line editing

What the loop hands to `compile` at the end of a line, as a function of all the
bytes that were fed before.  It is compared with an editor whose text has no
limit.  The two are the same as long as a line fits the buffer; at a full buffer
the loop ignores characters, and later edits act on the text without them.
-/

namespace HolyRust
namespace Drivers

open Foundation
open Compilation

/-!
## An editor without limit
-/

/-- What a byte means to a line editor. -/
inductive Key where
  | lineEnd
  | erase
  | clear
  | char (b : Byte)
  | ignored
deriving DecidableEq, Repr

def keyOf (b : Byte) : Key :=
  if b = byte '\r' ∨ b = byte '\n' then .lineEnd
  else if b = 0x08#8 ∨ b = 0x7F#8 then .erase
  else if b = 0x15#8 ∨ b = 0x03#8 then .clear
  else if b = byte '\t' then .char (byte ' ')
  else if between ' ' '~' b then .char b
  else .ignored

/-- The text after a key; the end of a line starts a new one. -/
def Key.edit (key : Key) (text : List Byte) : List Byte :=
  match key with
  | .lineEnd => []
  | .erase => text.dropLast
  | .clear => []
  | .char b => text ++ [b]
  | .ignored => text

theorem Key.length_edit_char (b : Byte) (text : List Byte) :
    ((Key.char b).edit text).length = text.length + 1 :=
  List.length_append

/-- Only a character makes the text longer. -/
theorem Key.length_edit_le {key : Key} (h : forall b, key ≠ .char b) (text : List Byte) :
    (key.edit text).length ≤ text.length := by
  cases key with
  | char b => exact absurd rfl (h b)
  | lineEnd => exact Nat.zero_le _
  | erase =>
      unfold Key.edit
      rw [List.length_dropLast]
      exact Nat.sub_le _ _
  | clear => exact Nat.zero_le _
  | ignored => exact Nat.le_refl _

/-- The text since the last end of a line. -/
def idealText (bytes : List Byte) : List Byte :=
  bytes.foldl (fun text b => (keyOf b).edit text) []

/-!
## The loop
-/

/-- What `compile` gives to the parser: an empty line is not evaluated. -/
def compileArgument (line : List Byte) : Option (List Byte) :=
  if line = [] then none else some line

/-- One byte through the loop: the line that is evaluated, if any, and the line after
it.  `take_line` empties the buffer. -/
def loopByte (line : List Byte) (b : Byte) : Option (List Byte) × List Byte :=
  match feed b line with
  | (.evaluating, line') => (compileArgument line', [])
  | (_, line') => (none, line')

/-- The line buffer up to `LINE_LEN` after the bytes. -/
def lineAfter (bytes : List Byte) : List Byte :=
  bytes.foldl (fun line b => (loopByte line b).2) []

/-- `feed` by the meaning of its byte. -/
theorem feed_eq (b : Byte) (line : List Byte) :
    feed b line =
      match keyOf b with
      | .lineEnd => (.evaluating, line)
      | .char c => (.reading, if line.length < lineMax then line ++ [c] else line)
      | .clear => (if b = 0x15#8 then .reading else .idle, [])
      | key => (.reading, key.edit line) := by
  by_cases htab : b = byte '\t'
  · subst htab
    rfl
  · unfold feed keyOf
    rw [if_neg htab]
    by_cases hend : b = byte '\r' ∨ b = byte '\n'
    · simp only [if_pos hend]
    · by_cases herase : b = 0x08#8 ∨ b = 0x7F#8
      · simp only [if_neg hend, if_pos herase]
        rfl
      · by_cases hkill : b = 0x15#8
        · simp only [if_neg hend, if_neg herase, if_pos hkill, if_pos (Or.inl hkill)]
        · by_cases hcancel : b = 0x03#8
          · simp only [if_neg hend, if_neg herase, if_neg hkill, if_pos hcancel,
              if_pos (Or.inr hcancel)]
          · have hclear : ¬ (b = 0x15#8 ∨ b = 0x03#8) := not_or.mpr ⟨hkill, hcancel⟩
            simp only [if_neg hend, if_neg herase, if_neg hkill, if_neg hcancel, if_neg hclear,
              if_neg htab]
            by_cases hchar : between ' ' '~' b = true
            · simp only [if_pos hchar]
            · simp only [if_neg hchar]
              rfl

theorem feed_evaluating_iff (b : Byte) (line : List Byte) :
    (feed b line).1 = .evaluating ↔ keyOf b = .lineEnd := by
  rw [feed_eq]
  cases keyOf b with
  | lineEnd => exact iff_of_true rfl rfl
  | clear => by_cases hkill : b = 0x15#8 <;> simp [hkill]
  | char c => simp
  | erase => simp
  | ignored => simp

/-- The line is evaluated and emptied at its end only. -/
theorem loopByte_of_feed (line : List Byte) (b : Byte) :
    loopByte line b =
      if keyOf b = .lineEnd then (compileArgument line, []) else (none, (feed b line).2) := by
  by_cases hend : keyOf b = .lineEnd
  · have hfeed : feed b line = (.evaluating, line) := by
      rw [feed_eq, hend]
    rw [if_pos hend]
    unfold loopByte
    rw [hfeed]
  · have hstate := mt (feed_evaluating_iff b line).mp hend
    rw [if_neg hend]
    unfold loopByte
    split
    · rename_i hfeed
      rw [hfeed] at hstate
      exact absurd rfl hstate
    · rename_i hfeed
      rw [hfeed]

/-!
## The loop against the editor
-/

/-- A character that finds the line full. -/
def refused (line : List Byte) (b : Byte) : Bool :=
  match keyOf b with
  | .char _ => decide (lineMax ≤ line.length)
  | _ => false

theorem refused_iff {line : List Byte} {b : Byte} :
    refused line b = true ↔ (exists c, keyOf b = .char c) ∧ lineMax ≤ line.length := by
  unfold refused
  cases keyOf b <;> simp

/-- The bytes that the loop does not refuse, from the given line on. -/
def unrefused (line : List Byte) : List Byte -> List Byte
  | [] => []
  | b :: bytes =>
      if refused line b then unrefused line bytes
      else b :: unrefused (loopByte line b).2 bytes

/-- One byte edits the line as the editor does, or is refused. -/
theorem loopByte_line (line : List Byte) (b : Byte) :
    (loopByte line b).2 = if refused line b then line else (keyOf b).edit line := by
  rw [loopByte_of_feed, feed_eq]
  unfold refused
  cases keyOf b with
  | char c =>
      show (if line.length < lineMax then line ++ [c] else line) =
        if decide (lineMax ≤ line.length) = true then line else line ++ [c]
      by_cases hroom : line.length < lineMax
      · rw [if_pos hroom, if_neg (by simpa using hroom)]
      · rw [if_neg hroom, if_pos (by simpa using hroom)]
  | lineEnd => rfl
  | erase => rfl
  | clear => rfl
  | ignored => rfl

theorem loopByte_lineEnd {b : Byte} (h : keyOf b = .lineEnd) (line : List Byte) :
    loopByte line b = (compileArgument line, []) := by
  rw [loopByte_of_feed, if_pos h]

theorem lineAfter_snoc (bytes : List Byte) (b : Byte) :
    lineAfter (bytes ++ [b]) = (loopByte (lineAfter bytes) b).2 := by
  unfold lineAfter
  rw [List.foldl_append]
  rfl

theorem idealText_snoc (bytes : List Byte) (b : Byte) :
    idealText (bytes ++ [b]) = (keyOf b).edit (idealText bytes) := by
  unfold idealText
  rw [List.foldl_append]
  rfl

/-- The line is what the editor makes of the bytes that are left. -/
theorem lineAfter_unrefused (bytes : List Byte) :
    lineAfter bytes = idealText (unrefused [] bytes) := by
  unfold lineAfter idealText
  -- from any line on, since a refused byte leaves the loop where it was
  generalize ([] : List Byte) = line
  induction bytes generalizing line with
  | nil => rfl
  | cons b bytes ih =>
      rw [List.foldl_cons, ih]
      simp only [unrefused]
      by_cases hrefused : refused line b = true
      · rw [loopByte_line, if_pos hrefused, if_pos hrefused]
      · rw [if_neg hrefused, List.foldl_cons, loopByte_line, if_neg hrefused]

theorem lineAfter_length_le (bytes : List Byte) : (lineAfter bytes).length ≤ lineMax := by
  induction bytes using List.reverseRecOn with
  | nil => exact Nat.zero_le _
  | append_singleton bytes b ih =>
      rw [lineAfter_snoc, loopByte_line]
      split
      · exact ih
      · rename_i hrefused
        by_cases hchar : exists c, keyOf b = .char c
        · obtain ⟨c, hc⟩ := hchar
          rw [hc, Key.length_edit_char]
          exact Nat.not_le.mp fun hfull => hrefused (refused_iff.mpr ⟨⟨c, hc⟩, hfull⟩)
        · exact (Key.length_edit_le (not_exists.mp hchar) _).trans ih

/-- The text has fitted the buffer ever since the last end of a line. -/
def NeverLonger (bytes : List Byte) : Prop :=
  forall before since, bytes = before ++ since -> (forall b, b ∈ since -> keyOf b ≠ .lineEnd) ->
    (idealText before).length ≤ lineMax

theorem neverLonger_init {bytes : List Byte} {b : Byte} (h : NeverLonger (bytes ++ [b]))
    (hb : keyOf b ≠ .lineEnd) : NeverLonger bytes := by
  intro before since hbytes hsince
  refine h before (since ++ [b]) (by rw [hbytes, List.append_assoc]) ?_
  intro b' hb'
  rcases List.mem_append.mp hb' with hold | hnew
  · exact hsince b' hold
  · rw [List.mem_singleton.mp hnew]
    exact hb

/-- Such a line is the text, whatever was done to the lines before it. -/
theorem lineAfter_of_neverLonger {bytes : List Byte} (h : NeverLonger bytes) :
    lineAfter bytes = idealText bytes := by
  induction bytes using List.reverseRecOn with
  | nil => rfl
  | append_singleton bytes b ih =>
      rw [lineAfter_snoc, idealText_snoc]
      by_cases hend : keyOf b = .lineEnd
      · rw [loopByte_lineEnd hend, hend]
        rfl
      · rw [ih (neverLonger_init h hend), loopByte_line]
        refine if_neg fun hrefused => ?_
        obtain ⟨⟨c, hc⟩, hfull⟩ := refused_iff.mp hrefused
        have hfits := h (bytes ++ [b]) [] (List.append_nil _).symm fun _ hb => by cases hb
        rw [idealText_snoc, hc, Key.length_edit_char] at hfits
        exact absurd hfits (Nat.not_le.mpr (Nat.lt_succ_of_le hfull))

theorem idealText_length_le (bytes : List Byte) : (idealText bytes).length ≤ bytes.length := by
  induction bytes using List.reverseRecOn with
  | nil => exact Nat.le_refl _
  | append_singleton bytes b ih =>
      rw [idealText_snoc, List.length_append, List.length_singleton]
      by_cases hchar : exists c, keyOf b = .char c
      · obtain ⟨c, hc⟩ := hchar
        rw [hc, Key.length_edit_char]
        exact Nat.add_le_add_right ih 1
      · exact (Key.length_edit_le (not_exists.mp hchar) _).trans (Nat.le_succ_of_le ih)

theorem neverLonger_of_length {bytes : List Byte} (h : bytes.length ≤ lineMax) :
    NeverLonger bytes := by
  intro before since hbytes _
  have hbefore : before.length ≤ bytes.length := by
    rw [hbytes, List.length_append]
    exact Nat.le_add_right _ _
  exact (idealText_length_le before).trans (hbefore.trans h)

theorem keyOf_lineEnd {e : Byte} (h : e = byte '\r' ∨ e = byte '\n') : keyOf e = .lineEnd :=
  if_pos h

/-- What is evaluated at the end of a line: the text without the characters that
found the line full.  A line that never outgrew the buffer has lost none. -/
theorem loopByte_evaluates (bytes : List Byte) (e : Byte) (he : e = byte '\r' ∨ e = byte '\n') :
    (loopByte (lineAfter bytes) e).1 = compileArgument (idealText (unrefused [] bytes)) ∧
      (NeverLonger bytes ->
        (loopByte (lineAfter bytes) e).1 = compileArgument (idealText bytes)) ∧
      (lineAfter bytes).length ≤ lineMax := by
  have hhanded := congrArg Prod.fst (loopByte_lineEnd (keyOf_lineEnd he) (lineAfter bytes))
  refine ⟨?_, ?_, lineAfter_length_le bytes⟩
  · rw [hhanded, lineAfter_unrefused]
  · intro hfits
    rw [hhanded, lineAfter_of_neverLonger hfits]

/-- `helq`, a backspace and `p`. -/
theorem loopByte_evaluates_help :
    (loopByte (lineAfter (ascii "helq\x08p")) (byte '\r')).1 = some (ascii "help") := by
  have hfits : NeverLonger (ascii "helq\x08p") := neverLonger_of_length (by decide +kernel)
  rw [(loopByte_evaluates (ascii "helq\x08p") (byte '\r') (Or.inl rfl)).2.1 hfits]
  decide +kernel

/-- The last two bytes of this `poke` find the line full, and `1` is evaluated for `12`. -/
theorem not_loopByte_ideal : ¬ forall (bytes : List Byte) (e : Byte),
    e = byte '\r' ∨ e = byte '\n' ->
      (loopByte (lineAfter bytes) e).1 = compileArgument (idealText bytes) ∨
        (loopByte (lineAfter bytes) e).1 = none := by
  intro hall
  have hpoke := hall (ascii "poke 0x20000000" ++ List.replicate 112 (byte ' ') ++ ascii "12;")
    (byte '\r') (Or.inl rfl)
  revert hpoke
  decide +kernel

/-!
## The line in the console

Whatever the interrupts do, the line of the console is what the loop makes of the
bytes that were fed.
-/

namespace Console

/-- The bytes that were fed. -/
def fedBytes (s : Console) : List Byte := s.fed.map Arrival.byte

/-- An ended line waits for `take_line`; any other is being edited. -/
structure Edits (t : Target) (s : Console) : Prop where
  ended : s.state = .evaluating -> exists bytes e, s.fedBytes = bytes ++ [e] ∧
    keyOf e = .lineEnd ∧ s.line = lineAfter bytes
  editing : s.state ≠ .evaluating -> s.line = lineAfter s.fedBytes
  atPoll : s.polled = true -> s.polls = true ∧ t = .arm

theorem edits_of_editing {t : Target} {s : Console} (hstate : s.state ≠ .evaluating)
    (hline : s.line = lineAfter s.fedBytes)
    (hpolled : s.polled = true -> s.polls = true ∧ t = .arm) : Edits t s where
  ended := fun h => absurd h hstate
  editing := fun _ => hline
  atPoll := hpolled

theorem not_polled {t : Target} {s : Console} (h : s.polled = false) :
    s.polled = true -> s.polls = true ∧ t = .arm := by
  intro hpolled
  rw [h] at hpolled
  cases hpolled

theorem edits_start (t : Target) (ring : RxRing) (shown : Arrival) :
    Edits t (start ring shown) :=
  edits_of_editing ReplState.noConfusion rfl (not_polled rfl)

/-- A byte is fed to a line that is being edited. -/
theorem edits_feed {t : Target} {s : Console} (a : Arrival)
    (hline : s.line = lineAfter s.fedBytes) (hpolled : s.polled = false) :
    Edits t (feedArrival a s) where
  ended := by
    intro hstate
    have hend := (feed_evaluating_iff a.byte s.line).mp hstate
    refine ⟨s.fedBytes, a.byte, List.map_append, hend, ?_⟩
    show (feed a.byte s.line).2 = lineAfter s.fedBytes
    rw [feed_eq, hend, hline]
  editing := by
    intro hstate
    have hend := mt (feed_evaluating_iff a.byte s.line).mpr hstate
    show (feed a.byte s.line).2 = lineAfter ((s.fed ++ [a]).map Arrival.byte)
    rw [List.map_append]
    show _ = lineAfter (s.fedBytes ++ [a.byte])
    rw [lineAfter_snoc, ← hline, loopByte_of_feed, if_neg hend]
  atPoll := not_polled hpolled

theorem edits_step {t : Target} {s s' : Console} {a : ConsoleAction} (h : Edits t s)
    (hstep : step t s a = some s') : Edits t s' := by
  have hpolls : s.polls = true -> s.state ≠ .evaluating := by
    intro hpolls hstate
    rw [polls, hstate] at hpolls
    cases hpolls
  cases moves_of_step hstep with
  | receive byte => exact ⟨h.ended, h.editing, h.atPoll⟩
  | irq =>
      unfold irqHandler
      split
      · exact ⟨h.ended, h.editing, h.atPoll⟩
      · split
        · exact ⟨h.ended, h.editing, h.atPoll⟩
        · exact ⟨h.ended, h.editing, h.atPoll⟩
  | idle hat _ =>
      exact edits_of_editing ReplState.noConfusion (h.editing (hpolls hat))
        fun hpolled => ⟨rfl, (h.atPoll hpolled).2⟩
  | status htarget hat _ => exact ⟨h.ended, h.editing, fun _ => ⟨hat, htarget⟩⟩
  | dataArm hpolled => exact edits_feed _ (h.editing (hpolls (h.atPoll hpolled).1)) rfl
  | dataRiscv htarget hat _ =>
      have hpolled : s.polled = false := by
        refine Bool.eq_false_iff.mpr fun hpolled => ?_
        have harm := (h.atPoll hpolled).2
        rw [htarget] at harm
        cases harm
      exact edits_feed _ (h.editing (hpolls hat)) hpolled
  | evaluate taken hstate =>
      obtain ⟨bytes, e, hfed, hend, hline⟩ := h.ended hstate
      refine edits_of_editing ReplState.noConfusion ?_ ?_
      · show [] = lineAfter s.fedBytes
        rw [hfed, lineAfter_snoc, loopByte_lineEnd hend]
      · intro hpolled
        exact absurd hstate (hpolls (h.atPoll hpolled).1)
  | print taken hstate =>
      have hediting : s.state ≠ .evaluating := by
        rw [hstate]
        exact ReplState.noConfusion
      exact edits_of_editing ReplState.noConfusion (h.editing hediting)
        fun hpolled => ⟨rfl, (h.atPoll hpolled).2⟩

/-- The line that `take_line` returns, in any interleaving with the interrupts. -/
theorem evaluated_line {t : Target} {ring : RxRing} {shown : Arrival}
    {past : List (Transition Console ConsoleAction)} {s : Console}
    (hrun : Interleaving t ring shown past s) (hstate : s.state = .evaluating) :
    exists bytes e, s.fedBytes = bytes ++ [e] ∧ (loopByte (lineAfter bytes) e).1 =
      compileArgument s.line := by
  have h : Edits t s := Trail.invariant (fun _ s => Edits t s) (fun _ => True)
    (edits_start t ring shown) (fun _ _ _ _ h hstep _ => edits_step h hstep) hrun
    (fun _ _ => trivial)
  obtain ⟨bytes, e, hfed, hend, hline⟩ := h.ended hstate
  refine ⟨bytes, e, hfed, ?_⟩
  rw [loopByte_lineEnd hend, hline]

end Console

end Drivers
end HolyRust
