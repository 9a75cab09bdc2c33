import HolyRust.Compilation.Parser

/-!
# What lines mean

Which outcomes a command has, and which accesses `check_access` has allowed before
it has one.
-/

namespace HolyRust
namespace Compilation

open Foundation
open Capabilities

/-- The address that stands for the PWM timer. -/
def timerProbe : Target -> Word
  | .riscv32 => 0x10015000#32
  | .arm => 0x40000000#32

/-- The address that stands for the SPI controller. -/
def spiProbe : Target -> Word
  | .riscv32 => 0x10014000#32
  | .arm => 0x40013000#32

/-- What an accepted command says. -/
def Answers (env : Env) : Command -> Outcome -> Prop
  | .peek, o => exists addr, o = .enforcedPeek addr ∧ Accessible env.target env.registry addr
  | .poke, o => exists addr val, o = .enforcedPoke addr val ∧
      Accessible env.target env.registry addr
  | .capClaim, o => exists name, o = .claim name
  | .capDrop, o => exists name, o = .drop name
  | .regSetBit, o => exists addr bit, o = .setBit addr bit ∧
      Accessible env.target env.registry addr
  | .regClrBit, o => exists addr bit, o = .clrBit addr bit ∧
      Accessible env.target env.registry addr
  | .help, o => o = .help
  | .banner, o => o = .banner
  | .sysAudit, o => o = .sysAudit
  | .bench, o => o = .bench
  | .pwm, o => exists period duty, o = .pwm period duty ∧
      Accessible env.target env.registry (timerProbe env.target)
  | .pwmDuty, o => exists duty, o = .pwmDuty duty ∧
      Accessible env.target env.registry (timerProbe env.target)
  | .store, o => exists name, o = .store name
  | .load, o => exists name, o = .load name
  | .storeList, o => o = .storeList
  | .loop, o => exists program, o = .run program
  | .flashTest, o => o = .flashTest
  | .poolAlloc, o => exists size, o = .poolAlloc size
  | .poolFree, o => o = .poolFree
  | .poolStats, o => o = .poolStats
  | .spawn, o => exists name, o = .spawn name
  | .spiTx, o => exists b, o = .spiTx b ∧
      Accessible env.target env.registry (spiProbe env.target)

theorem returns_requireAccess (env : Env) (addr : Word) :
    Returns (fun _ => Accessible env.target env.registry addr) (requireAccess env addr) := by
  unfold requireAccess
  cases hcheck : checkAccess env.target env.registry addr with
  | ok u => exact fun _ => hcheck
  | error cap => exact returns_throw _ _

theorem returns_checkTimerCap (env : Env) :
    Returns (fun _ => Accessible env.target env.registry (timerProbe env.target))
      (checkTimerCap env) :=
  returns_requireAccess env (timerProbe env.target)

theorem returns_checkSpiCap (env : Env) :
    Returns (fun _ => Accessible env.target env.registry (spiProbe env.target))
      (checkSpiCap env) :=
  returns_requireAccess env (spiProbe env.target)

theorem returns_keywordCommand (outcome : Outcome) :
    Returns (fun o => o = outcome) (keywordCommand outcome) :=
  returns_bind fun _ => returns_pure rfl

theorem returns_nameCommand (outcome : NameBuf -> Outcome) :
    Returns (fun o => exists name, o = outcome name) (nameCommand outcome) :=
  returns_bind fun name => returns_bind fun _ => returns_pure ⟨name, rfl⟩

theorem returns_bitCommand (env : Env) (fuel : Nat) (outcome : Word -> Word -> Outcome) :
    Returns (fun o => exists addr bit, o = outcome addr bit ∧
      Accessible env.target env.registry addr) (bitCommand env fuel outcome) :=
  returns_bind fun addr => returns_bind fun bit => returns_bind fun _ =>
    returns_seq (returns_requireAccess env addr) fun _ haccess =>
      returns_pure ⟨addr, bit, rfl, haccess⟩

/-- The outcome of a command is one of its own, and its access was allowed. -/
theorem returns_runCommand (env : Env) (fuel : Nat) (command : Command) :
    Returns (Answers env command) (runCommand env fuel command) := by
  cases command with
  | peek =>
      exact returns_bind fun addr => returns_bind fun _ =>
        returns_seq (returns_requireAccess env addr) fun _ haccess =>
          returns_pure ⟨addr, rfl, haccess⟩
  | poke =>
      exact returns_bind fun addr => returns_bind fun val => returns_bind fun _ =>
        returns_seq (returns_requireAccess env addr) fun _ haccess =>
          returns_pure ⟨addr, val, rfl, haccess⟩
  | capClaim => exact returns_nameCommand _
  | capDrop => exact returns_nameCommand _
  | regSetBit => exact returns_bitCommand env fuel _
  | regClrBit => exact returns_bitCommand env fuel _
  | help => exact returns_keywordCommand _
  | banner => exact returns_keywordCommand _
  | sysAudit => exact returns_keywordCommand _
  | bench => exact returns_keywordCommand _
  | pwm =>
      exact returns_bind fun period => returns_bind fun duty => returns_bind fun _ =>
        returns_seq (returns_checkTimerCap env) fun _ haccess =>
          returns_pure ⟨period, duty, rfl, haccess⟩
  | pwmDuty =>
      exact returns_bind fun duty => returns_bind fun _ =>
        returns_seq (returns_checkTimerCap env) fun _ haccess =>
          returns_pure ⟨duty, rfl, haccess⟩
  | store => exact returns_nameCommand _
  | load => exact returns_nameCommand _
  | storeList => exact returns_keywordCommand _
  | loop =>
      exact returns_bind fun _ => returns_bind fun _ => returns_bind fun _ =>
        returns_bind fun _ => returns_bind fun _ => returns_bind fun _ => returns_bind fun _ =>
          returns_bind fun program => returns_pure ⟨program, rfl⟩
  | flashTest => exact returns_keywordCommand _
  | poolAlloc =>
      exact returns_bind fun size => returns_bind fun _ => returns_pure ⟨size, rfl⟩
  | poolFree => exact returns_keywordCommand _
  | poolStats => exact returns_pure rfl
  | spawn => exact returns_nameCommand _
  | spiTx =>
      exact returns_bind fun _ => returns_bind fun _ =>
        returns_seq (returns_checkSpiCap env) fun _ haccess => returns_pure ⟨_, rfl, haccess⟩

/-- The only command that compiles a program is `loop`. -/
theorem loop_of_answers_run {env : Env} {command : Command} {program : StreamProgram}
    (h : Answers env command (.run program)) : command = .loop := by
  cases command with
  | loop => rfl
  | help | banner | sysAudit | bench | storeList | flashTest | poolFree | poolStats => cases h
  | capClaim | capDrop | store | load | poolAlloc | spawn =>
      obtain ⟨_, h⟩ := h
      cases h
  | peek | pwmDuty | spiTx =>
      obtain ⟨_, h, _⟩ := h
      cases h
  | poke | regSetBit | regClrBit | pwm =>
      obtain ⟨_, _, h, _⟩ := h
      cases h

/-!
## Lines
-/

/-- What `parse` says about a line: a definition, a program or a command. -/
def Meant (env : Env) (o : Outcome) : Prop :=
  (exists name value, o = .bound name value) ∨ (exists name, o = .fnDefined name) ∨
    (exists program, o = .run program) ∨ exists command, Answers env command o

theorem returns_valueCommand (env : Env) (fuel : Nat) (first : Token) :
    Returns (fun o => exists program, o = .run program) (valueCommand env fuel first) :=
  returns_bind fun _ => returns_bind fun _ => returns_bind fun program =>
    returns_pure ⟨program, rfl⟩

theorem returns_callOrValue (env : Env) (fuel : Nat) (id : List Byte) :
    Returns (fun o => exists program, o = .run program) (callOrValue env fuel id) :=
  returns_bind fun _ => returns_ite
    (returns_bind fun _ => returns_bind fun program => returns_pure ⟨program, rfl⟩)
    (returns_valueCommand env fuel _)

/-- What `parse` says about a line that begins with the token `first`. -/
def MeantBy (env : Env) (o : Outcome) : Token -> Prop
  | .kwLet => exists name value, o = .bound name value
  | .kwFn => exists name, o = .fnDefined name
  | .identifier id =>
      match commandOf id with
      | some command => Answers env command o
      | none => exists program, o = .run program
  | _ => exists program, o = .run program

theorem meant_of_meantBy {env : Env} {o : Outcome} {first : Token} (h : MeantBy env o first) :
    Meant env o := by
  cases first with
  | kwLet => exact Or.inl h
  | kwFn => exact Or.inr (Or.inl h)
  | identifier id =>
      unfold MeantBy at h
      cases hcommand : commandOf id with
      | some command =>
          simp only [hcommand] at h
          exact Or.inr (Or.inr (Or.inr ⟨command, h⟩))
      | none =>
          simp only [hcommand] at h
          exact Or.inr (Or.inr (Or.inl h))
  | _ => exact Or.inr (Or.inr (Or.inl h))

/-- The arms of `parse`. -/
theorem returns_arm (env : Env) (fuel : Nat) (first : Token) :
    Returns (fun o => MeantBy env o first) (match first with
      | .eof => reject .emptyLine
      | .kwLet => parseLet env fuel
      | .kwFn => parseFn env fuel
      | .identifier id => parseCommand env fuel id
      | .literal v => valueCommand env fuel (.literal v)
      | .operator op => valueCommand env fuel (.operator op)
      | .lParen => valueCommand env fuel .lParen
      | .error msg => reject (.lexError msg)
      | _ => reject .unexpectedToken) := by
  cases first with
  | kwLet =>
      exact returns_bind fun name => returns_bind fun _ => returns_bind fun value =>
        returns_bind fun _ => returns_bind fun _ => returns_bind fun _ => returns_bind fun _ =>
          returns_pure ⟨name, value, rfl⟩
  | kwFn =>
      exact returns_bind fun name => returns_bind fun _ => returns_bind fun _ =>
        returns_bind fun _ => returns_bind fun _ => returns_bind fun _ => returns_bind fun _ =>
          returns_pure ⟨name, rfl⟩
  | identifier id =>
      simp only [MeantBy, parseCommand]
      cases commandOf id with
      | some command => exact returns_runCommand env fuel command
      | none => exact returns_callOrValue env fuel id
  | literal v => exact returns_valueCommand env fuel _
  | operator op => exact returns_valueCommand env fuel _
  | lParen => exact returns_valueCommand env fuel _
  | _ => exact returns_throw _ _

theorem parse_meantBy {env : Env} {c : Compiler} {line : List Byte} {outcome : Outcome}
    {s : ParseState} (h : parse env c line = .ok outcome s) :
    MeantBy env outcome (Lexer.new line).nextToken.1 :=
  returns_of_ok (returns_arm env (parseFuel line) (Lexer.new line).nextToken.1) h

theorem parse_meant {env : Env} {c : Compiler} {line : List Byte} {outcome : Outcome}
    {s : ParseState} (h : parse env c line = .ok outcome s) : Meant env outcome :=
  meant_of_meantBy (parse_meantBy h)

/-- The command whose keyword a line begins with. -/
def lineCommand (line : List Byte) : Option Command :=
  match (Lexer.new line).nextToken.1 with
  | .identifier id => commandOf id
  | _ => none

theorem answers_of_lineCommand {env : Env} {c : Compiler} {line : List Byte} {outcome : Outcome}
    {s : ParseState} {command : Command} (h : parse env c line = .ok outcome s)
    (hcommand : lineCommand line = some command) : Answers env command outcome := by
  have hmeant := parse_meantBy h
  unfold lineCommand at hcommand
  cases hfirst : (Lexer.new line).nextToken.1 with
  | identifier id =>
      rw [hfirst] at hcommand hmeant
      unfold MeantBy at hmeant
      simp only at hcommand
      simp only [hcommand] at hmeant
      exact hmeant
  | _ =>
      rw [hfirst] at hcommand
      cases hcommand

/-- A line without a command is a definition or a program. -/
theorem definition_or_run_of_lineCommand {env : Env} {c : Compiler} {line : List Byte}
    {outcome : Outcome} {s : ParseState} (h : parse env c line = .ok outcome s)
    (hcommand : lineCommand line = none) :
    (exists name value, outcome = .bound name value) ∨ (exists name, outcome = .fnDefined name) ∨
      exists program, outcome = .run program := by
  have hmeant := parse_meantBy h
  unfold lineCommand at hcommand
  cases hfirst : (Lexer.new line).nextToken.1 with
  | identifier id =>
      rw [hfirst] at hcommand hmeant
      unfold MeantBy at hmeant
      simp only at hcommand
      simp only [hcommand] at hmeant
      exact Or.inr (Or.inr hmeant)
  | kwLet =>
      rw [hfirst] at hmeant
      exact Or.inl hmeant
  | kwFn =>
      rw [hfirst] at hmeant
      exact Or.inr (Or.inl hmeant)
  | _ =>
      rw [hfirst] at hmeant
      exact Or.inr (Or.inr hmeant)

end Compilation
end HolyRust
