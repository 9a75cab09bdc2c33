import HolyRust.Foundation.Terminal
import HolyRust.Compilation.Faults
import HolyRust.Drivers.LineEditor
import HolyRust.Drivers.Replies

/-!
# The screen

The loop echoes what it takes into the line and nothing else.  On a terminal the row of the
cursor reads the prompt and, behind it, the line that a line end would hand to the compiler.
As long as devices answer, every line leads back to a prompt.
-/

namespace HolyRust
namespace Drivers

open Foundation
open Compilation

def prompt : List Byte := ascii "holy> "

def eraseText : List Byte := ascii "\x08 \x08"

/-- What `feed` prints. -/
def echo (byte : Byte) (line : List Byte) : List Byte :=
  let byte := if byte = Compilation.byte '\t' then Compilation.byte ' ' else byte
  if byte = Compilation.byte '\r' ∨ byte = Compilation.byte '\n' then ascii "\r\n"
  -- backspace and DEL
  else if byte = 0x08#8 ∨ byte = 0x7F#8 then if 0 < line.length then eraseText else []
  -- Ctrl-U kills the line, Ctrl-C cancels it
  else if byte = 0x15#8 then (List.replicate line.length eraseText).flatten
  else if byte = 0x03#8 then ascii "^C\r\n" ++ prompt
  else if between ' ' '~' byte then if line.length < lineMax then [byte] else []
  else []

/-!
## Dialogs
-/

/-- A session, the line being edited and everything that was printed. -/
structure Dialog where
  session : Session
  line : List Byte
  sent : List Byte

/-- A byte that does not end the line. -/
def Dialog.edited (d : Dialog) (byte : Byte) : Dialog :=
  { d with line := (feed byte d.line).2, sent := d.sent ++ echo byte d.line }

/-- The end of the line, a reply and the next prompt. -/
def Dialog.entered (d : Dialog) (byte : Byte) (s : Session) (text : List Byte) : Dialog where
  session := s
  line := []
  sent := d.sent ++ (echo byte d.line ++ text) ++ prompt

/-- What the loop gets to from its start after the banner.  A line that does not return, or
stores into memory of the kernel's own, ends the dialog. -/
inductive Dialogs (b : Build) (engine : Engine) : Dialog -> Prop where
  | start (s : Session) : Dialogs b engine ⟨s, [], kernelBanner ++ prompt⟩
  | edit {d : Dialog} (byte : Byte) : Dialogs b engine d ->
      (feed byte d.line).1 ≠ .evaluating -> Dialogs b engine (d.edited byte)
  | enter {d : Dialog} (byte : Byte) {input : Input} {heard : Heard} {s' : Session}
      {text : List Byte} : Dialogs b engine d -> (feed byte d.line).1 = .evaluating ->
      input.line = (feed byte d.line).2 -> Step b engine d.session input s' ->
        StoresToUser b ⟨d.session, input, s'⟩ ->
          printOutcome b input heard d.session = .ok text ->
            Dialogs b engine (d.entered byte s' text)

/-!
## Bytes on a terminal
-/

/-- What a terminal does with a byte. -/
def strokeOf (b : Byte) : Stroke Byte :=
  if b = byte '\r' then .home
  else if b = byte '\n' then .down
  else if b = 0x08#8 then .back
  else if between ' ' '~' b then .cell b
  else .ignored

/-- The terminal after the bytes. -/
def received (t : Terminal Byte) (bs : List Byte) : Terminal Byte :=
  t.putAll (byte ' ') (bs.map strokeOf)

/-- The row of the cursor reads `text` from a column on, and ends there. -/
abbrev Displays (t : Terminal Byte) (start : Nat) (text : List Byte) : Prop :=
  t.Shows (byte ' ') start text

theorem received_append (t : Terminal Byte) (bs bs' : List Byte) :
    received t (bs ++ bs') = received (received t bs) bs' := by
  unfold received
  rw [List.map_append, Terminal.putAll_append]

theorem strokeOf_printable {b : Byte} (h : between ' ' '~' b = true) : strokeOf b = .cell b := by
  revert b
  decide

theorem map_strokeOf_printable {bs : List Byte} (h : forall b, b ∈ bs -> between ' ' '~' b = true) :
    bs.map strokeOf = bs.map .cell :=
  List.map_congr_left fun b hb => strokeOf_printable (h b hb)

section Rows

variable {t : Terminal Byte} {start : Nat} {text : List Byte}

theorem displays_printable (h : Displays t start text) {bs : List Byte}
    (hbs : forall b, b ∈ bs -> between ' ' '~' b = true) :
    Displays (received t bs) start (text ++ bs) := by
  unfold received
  rw [map_strokeOf_printable hbs]
  exact h.cells_append bs

theorem displays_erase {a : Byte} (h : Displays t start (text ++ [a])) :
    Displays (received t eraseText) start text := by
  have hstrokes : eraseText.map strokeOf = [.back, .cell (byte ' '), .back] := by decide
  unfold received
  rw [hstrokes]
  exact h.erase

theorem displays_eraseAll {more : List Byte} (h : Displays t start (text ++ more)) :
    Displays (received t (List.replicate more.length eraseText).flatten) start text := by
  have hstrokes : eraseText.map strokeOf = [.back, .cell (byte ' '), .back] := by decide
  unfold received
  rw [List.map_flatten, List.map_replicate, hstrokes]
  exact h.eraseAll

/-- A prompt after an ended line stands on a row of its own. -/
theorem displays_prompt (t : Terminal Byte) {sent : List Byte} (h : Ended sent) :
    exists start, Displays (received t (sent ++ prompt)) start prompt := by
  obtain ⟨body, rfl⟩ := h
  have hdown : received t (body ++ [lineFeed]) = (received t body).put (byte ' ') .down := by
    rw [received_append]
    rfl
  refine ⟨(received t body).column, ?_⟩
  rw [received_append, hdown]
  exact displays_printable (Terminal.shows_down _) (by decide)

end Rows

/-!
## One byte
-/

/-- What one byte can do to a line: its new state and text, and what is printed. -/
inductive Echoes (line : List Byte) : ReplState × List Byte -> List Byte -> Prop where
  | ends : Echoes line (.evaluating, line) (ascii "\r\n")
  | nothing : Echoes line (.reading, line) []
  | erases {rest : List Byte} {a : Byte} : line = rest ++ [a] ->
      Echoes line (.reading, rest) eraseText
  | kills : Echoes line (.reading, []) (List.replicate line.length eraseText).flatten
  | cancels : Echoes line (.idle, []) (ascii "^C\r\n" ++ prompt)
  | types {c : Byte} : between ' ' '~' c = true -> Echoes line (.reading, line ++ [c]) [c]

theorem echoes_feed (b : Byte) (line : List Byte) : Echoes line (feed b line) (echo b line) := by
  unfold feed echo
  generalize (if b = byte '\t' then byte ' ' else b) = c
  dsimp only
  by_cases hend : c = byte '\r' ∨ c = byte '\n'
  · rw [if_pos hend, if_pos hend]
    exact .ends
  rw [if_neg hend, if_neg hend]
  by_cases herase : c = 0x08#8 ∨ c = 0x7F#8
  · rw [if_pos herase, if_pos herase]
    cases line using List.reverseRecOn with
    | nil => exact .nothing
    | append_singleton rest a =>
        rw [List.dropLast_concat, if_pos (by rw [List.length_append]; exact Nat.succ_pos _)]
        exact .erases rfl
  rw [if_neg herase, if_neg herase]
  by_cases hkill : c = 0x15#8
  · rw [if_pos hkill, if_pos hkill]
    exact .kills
  rw [if_neg hkill, if_neg hkill]
  by_cases hcancel : c = 0x03#8
  · rw [if_pos hcancel, if_pos hcancel]
    exact .cancels
  rw [if_neg hcancel, if_neg hcancel]
  by_cases hchar : between ' ' '~' c = true
  · rw [if_pos hchar, if_pos hchar]
    by_cases hroom : line.length < lineMax
    · rw [if_pos hroom, if_pos hroom]
      exact .types hchar
    · rw [if_neg hroom, if_neg hroom]
      exact .nothing
  · rw [if_neg hchar, if_neg hchar]
    exact .nothing

/-- The row shows the prompt and the line, which has printable characters only. -/
structure OnScreen (t : Terminal Byte) (d : Dialog) : Prop where
  row : exists start, Displays (received t d.sent) start (prompt ++ d.line)
  printable : forall b, b ∈ d.line -> between ' ' '~' b = true

section Steps

variable {b : Build} {engine : Engine} {d : Dialog} {t : Terminal Byte}

/-- After an ended line and the prompt. -/
theorem onScreen_prompt (t : Terminal Byte) (s : Session) {sent : List Byte} (h : Ended sent) :
    OnScreen t ⟨s, [], sent ++ prompt⟩ where
  row := by
    rw [List.append_nil]
    exact displays_prompt t h
  printable _ hb := by cases hb

theorem onScreen_edit (h : OnScreen t d) (byte : Byte)
    (hedit : (feed byte d.line).1 ≠ .evaluating) : OnScreen t (d.edited byte) := by
  obtain ⟨start, hrow⟩ := h.row
  unfold Dialog.edited
  have hechoes := echoes_feed byte d.line
  generalize feed byte d.line = fed at hechoes hedit ⊢
  generalize echo byte d.line = text at hechoes ⊢
  cases hechoes with
  | ends => exact absurd rfl hedit
  | nothing =>
      refine ⟨⟨start, ?_⟩, h.printable⟩
      rw [List.append_nil]
      exact hrow
  | @erases rest a hline =>
      refine ⟨⟨start, ?_⟩, fun c hc => h.printable c ?_⟩
      · rw [hline, ← List.append_assoc] at hrow
        rw [received_append]
        exact displays_erase hrow
      · rw [hline]
        exact List.mem_append_left _ hc
  | kills =>
      refine ⟨⟨start, ?_⟩, fun _ hc => by cases hc⟩
      rw [received_append, List.append_nil]
      exact displays_eraseAll hrow
  | cancels =>
      rw [← List.append_assoc]
      exact onScreen_prompt t d.session ((ended_of_getLast? rfl).append d.sent)
  | @types c hc =>
      refine ⟨⟨start, ?_⟩, fun c' hc' => ?_⟩
      · rw [received_append, ← List.append_assoc]
        exact displays_printable hrow fun c' hc' => by rw [List.mem_singleton.mp hc']; exact hc
      · rcases List.mem_append.mp hc' with hold | hnew
        · exact h.printable c' hold
        · rw [List.mem_singleton.mp hnew]
          exact hc

theorem echo_of_evaluating {byte : Byte} {line : List Byte}
    (h : (feed byte line).1 = .evaluating) :
    (feed byte line).2 = line ∧ echo byte line = ascii "\r\n" := by
  have hechoes := echoes_feed byte line
  generalize feed byte line = fed at hechoes h ⊢
  generalize echo byte line = text at hechoes ⊢
  cases hechoes with
  | ends => exact ⟨rfl, rfl⟩
  | _ => cases h

theorem onScreen_run (h : Dialogs b engine d) (t : Terminal Byte) : OnScreen t d := by
  induction h with
  | start s => exact onScreen_prompt t s (ended_of_getLast? rfl)
  | edit byte _ hedit ih => exact onScreen_edit ih byte hedit
  | @enter d byte input heard s' text _ hend _ _ _ hprints ih =>
      obtain ⟨text', htext, hends⟩ := prints_printOutcome b input heard d.session
      cases htext.symm.trans hprints
      have hsent : Ended (d.sent ++ (echo byte d.line ++ text)) := by
        rw [(echo_of_evaluating hend).right]
        exact (ended_crlf.append_endsLine hends).append d.sent
      exact onScreen_prompt t s' hsent

/-- In every dialog, on every terminal, the row of the cursor shows the prompt and behind it
exactly the line that is handed to the compiler when it ends. -/
theorem screen_shows_line (h : Dialogs b engine d) (t : Terminal Byte) :
    (exists start, Displays (received t d.sent) start (prompt ++ d.line)) ∧
      forall byte, (feed byte d.line).1 = .evaluating -> (feed byte d.line).2 = d.line :=
  ⟨(onScreen_run h t).row, fun _ hend => (echo_of_evaluating hend).left⟩

theorem dialogs_edits (h : Dialogs b engine d) (bytes : List Byte)
    (hbytes : forall byte, byte ∈ bytes -> keyOf byte ≠ .lineEnd) :
    Dialogs b engine (bytes.foldl Dialog.edited d) := by
  induction bytes generalizing d with
  | nil => exact h
  | cons byte bytes ih =>
      have hedit : (feed byte d.line).1 ≠ .evaluating := by
        rw [Ne, feed_evaluating_iff]
        exact hbytes byte List.mem_cons_self
      exact ih (.edit byte h hedit) fun other hother => hbytes other (List.mem_cons_of_mem _ hother)

/-!
## Back to the prompt
-/

/-- The devices answer every read. -/
def Answers (input : Input) : Prop := forall addr, input.answers addr ≠ none

theorem execute_returns (b : Build) {input : Input} (hanswers : Answers input)
    (outcome : Outcome) (s : Session) : exists s', execute b input outcome s = some s' := by
  have hanswered : forall addr (f : Word -> Session),
      exists s', (input.answers addr).map f = some s' := by
    intro addr f
    obtain ⟨v, hv⟩ := Option.ne_none_iff_exists'.mp (hanswers addr)
    exact ⟨f v, by rw [hv]; rfl⟩
  cases outcome with
  | setBit addr bit => exact hanswered addr _
  | clrBit addr bit => exact hanswered addr _
  | _ => exact ⟨_, rfl⟩

theorem evalLine_returns (b : Build) {input : Input} (hanswers : Answers input) (s : Session) :
    exists s', evalLine b input s = some s' := by
  have hmem : forall addr, (s.env b input).mem addr ≠ none := hanswers
  unfold evalLine compileLine
  by_cases hempty : input.line = []
  · rw [if_pos hempty]
    exact ⟨s, rfl⟩
  · rw [if_neg hempty]
    rcases parse_ends hmem s.comp input.line with ⟨outcome, ps, hparse⟩ | ⟨e, ps, hparse⟩
    · rw [hparse]
      exact execute_returns b hanswers outcome _
    · rw [hparse]
      exact ⟨_, rfl⟩

end Steps

/-- `text` typed at the first prompt. -/
def typedDialog (text : String) : Dialog :=
  (ascii text).foldl Dialog.edited ⟨.blank, [], kernelBanner ++ prompt⟩

/-- A line that runs no program makes no accesses. -/
theorem makes_typed (engine : Engine) {text : String}
    (hruns : (runProgram (accepted .arm (typed text) .blank)).isNone = true) (outcome : Outcome)
    (h : accepted .arm (typed text) .blank = some outcome) :
    Makes engine .arm outcome (typed text).accesses := by
  cases outcome with
  | run program =>
      rw [h] at hruns
      cases hruns
  | _ =>
      intro a ha
      cases ha

/-- After the line `banner`. -/
def bannerDialog : Dialog :=
  (typedDialog "banner").entered (byte '\r') (typeLine .arm .blank "banner") kernelBanner

/-- The line `banner`, then `helq`, a backspace and `p`. -/
theorem screen_shows_line_help : exists d, Dialogs .arm .threaded d ∧ d.line = ascii "help" ∧
    exists start, Displays (received ⟨fun _ => 0#8, 0⟩ d.sent) start (ascii "holy> help") := by
  have htyped : Dialogs .arm .threaded (typedDialog "banner") :=
    dialogs_edits (.start .blank) (ascii "banner") (by decide)
  have hprints : printOutcome .arm (typed "banner") .silent Session.blank = .ok kernelBanner := by
    decide +kernel
  have hbanner : Dialogs .arm .threaded bannerDialog :=
    .enter (byte '\r') htyped rfl rfl (step_typed .threaded (by decide +kernel))
      (storesToUser_of_all (by decide +kernel)) hprints
  have hhelp := dialogs_edits hbanner (ascii "helq\x08p") (by decide)
  have hline : ((ascii "helq\x08p").foldl Dialog.edited bannerDialog).line = ascii "help" := by
    decide +kernel
  refine ⟨_, hhelp, hline, ?_⟩
  obtain ⟨⟨start, hrow⟩, _⟩ := screen_shows_line hhelp ⟨fun _ => 0#8, 0⟩
  rw [hline] at hrow
  exact ⟨start, hrow⟩

end Drivers
end HolyRust
