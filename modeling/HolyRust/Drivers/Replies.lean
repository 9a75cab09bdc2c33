import HolyRust.Drivers.AuditDump
import HolyRust.Drivers.Rendering
import HolyRust.Drivers.Repl

/-!
# Replies

What `execute` prints for an outcome, and what an error prints.  Every reply is empty or
ends its last line, and no printer runs out of its scratch buffer.
-/

namespace HolyRust
namespace Drivers

open Foundation
open Capabilities
open Kernel
open Compilation

def lineFeed : Byte := byte '\n'

/-- Convenience: string + newline. -/
def writeLine (s : List Byte) : List Byte := s ++ ascii "\r\n"

/-- Convenience: hex u32 + newline. -/
def writeLineU32 (value : Word) : Except Panic (List Byte) := do
  let hex <- writeHexU32 value
  pure (hex ++ ascii "\r\n")

/-- `kernel::BANNER`. -/
def kernelBanner : List Byte := ascii "Holy Rust REPL v0.1\r\n"

/-!
## Errors
-/

def errorText : ParseError -> List Byte
  | .lexError _ => ascii "LEX\n"
  | .unexpectedToken => ascii "UNEXPECTED TOKEN\n"
  | .unsupportedOperator _ => ascii "UNSUPPORTED OPERATOR\n"
  | .unknownSymbol => ascii "UNKNOWN SYMBOL\n"
  | .duplicateFn => ascii "FN REDEFINED\n"
  | .symbolTableFull => ascii "SYMBOL TABLE FULL\n"
  | .fnTableFull => ascii "FN TABLE FULL\n"
  | .streamFull => ascii "STREAM FULL\n"
  | .nameTooLong => ascii "NAME TOO LONG\n"
  | .divByZero => ascii "DIV BY ZERO\n"
  | .missingSemicolon => ascii "MISSING SEMICOLON\n"
  | .emptyLine => ascii "\n"
  | .capabilityViolation => ascii "E001: CAPABILITY_VIOLATION - Peripheral token not claimed\n"
  | .loopTooLarge => ascii "LOOP TOO LARGE (max 64 unroll)\n"

/-- `MemError::as_bytes`. -/
def memErrorBytes : MemError -> List Byte
  | .capabilityViolation => ascii "E001: CAPABILITY_VIOLATION - Peripheral token not claimed"
  | .permissionDenied =>
      ascii "E002: PERMISSION_DENIED - Unmapped MMIO access requires SuperUserCap"

/-!
## Benchmark
-/

/-- The figures of `run_bench`: cycles of a threaded run, and of the first and of a later
native run where native code is available. -/
structure BenchFigures where
  threaded : Word
  native : Option (Word × Word)
deriving DecidableEq, Repr

/-- `buf[n] = b; n += 1` for every byte, in a buffer of `capacity` bytes. -/
def appendTo (capacity : Nat) (buf bs : List Byte) : Except Panic (List Byte) :=
  bs.foldlM (fun buf b => if buf.length < capacity then .ok (buf ++ [b]) else .error .index) buf

/-- Minimal decimal formatter into label + number + suffix. -/
def formatU64 (label : List Byte) (v : BitVec 64) (suffix : List Byte) :
    Except Panic (List Byte) := do
  let buf <- appendTo 96 [] label
  let filled <- fillScratch 21 (List.replicate 20 0#8) 0 v.toNat
  let digits <- emitScratch filled.1 filled.2
  let buf <- appendTo 96 buf digits
  appendTo 96 buf suffix

/-- The report lines of `run_bench`. -/
def benchReport (f : BenchFigures) : Except Panic (List Byte) := do
  let head := ascii "bench: stream = lit 2, lit 3, add, halt\r\n" ++
    ascii "bench: iterations = 1000\r\n"
  let threaded <- formatU64 (ascii "bench: threaded = ") (f.threaded.setWidth 64)
    (ascii " cyc/exec\r\n")
  match f.native with
  | none =>
      pure (head ++ ascii "bench: native path unavailable on this target\r\n" ++ threaded)
  | some (first, native) => do
      let firstCall <- formatU64 (ascii "bench: first-call (compile+exec) = ")
        (first.setWidth 64) (ascii " cyc\r\n")
      let later <- formatU64 (ascii "bench: native    = ") (native.setWidth 64)
        (ascii " cyc/exec\r\n")
      let speedup <-
        if native = 0#32 then pure []
        else
          formatU64 (ascii "bench: speedup  = x")
            (f.threaded.setWidth 64 * 100#64 / native.setWidth 64) (ascii "/100\r\n")
      pure (head ++ threaded ++ firstCall ++ later ++ speedup)

/-!
## Commands
-/

def printHelp : List Byte :=
  writeLine (
    ascii "commands:\r\n" ++
    ascii "peek ADDR;              read u32 from address (requires capability)\r\n" ++
    ascii "poke ADDR VAL;          write u32 to address (requires capability)\r\n" ++
    ascii "reg_set_bit ADDR BIT;   set register bit (requires capability)\r\n" ++
    ascii "reg_clr_bit ADDR BIT;   clear register bit (requires capability)\r\n" ++
    ascii "cap_claim NAME;         claim peripheral " ++
    ascii "(GPIOA GPIOB UART0 SPI0 I2C0 TIMER0 DMA0 SUPERUSER)\r\n" ++
    ascii "cap_drop NAME;          release peripheral\r\n" ++
    ascii "let NAME = EXPR;        bind constant\r\n" ++
    ascii "fn NAME() \x7b ... \x7d       define callable body\r\n" ++
    ascii "EXPR;                   evaluate (+ - * / % left-to-right)\r\n" ++
    ascii "sys_audit               dump SuperUser audit log\r\n" ++
    ascii "bench                   native vs threaded JIT benchmark\r\n" ++
    ascii "pwm PERIOD DUTY;        TIM2 PWM config (Timer0 cap)\r\n" ++
    ascii "pwm_duty DUTY;          live duty update (Timer0 cap)\r\n" ++
    ascii "spi_tx BYTE;            SPI1 transfer (Spi0 cap)\r\n" ++
    ascii "banner                  reprint banner")

/-- What `do_claim` prints. -/
def claimReply (name : List Byte) (r : Registry) : Except Panic (List Byte) :=
  match resolveName name with
  | some id =>
      if (acquire r id).1 then do
        let number <- writeDecU32 (BitVec.ofNat 32 id)
        pure (ascii "CAP CLAIMED " ++ name ++ ascii " id=" ++ number ++ ascii "\n")
      else pure (ascii "CAP BUSY " ++ writeLine name)
  | none => pure (ascii "ERR UNKNOWN RESOURCE " ++ writeLine name)

/-- What `do_drop` prints. -/
def dropReply (name : List Byte) (r : Registry) : List Byte :=
  match resolveName name with
  | some id =>
      if available r id then ascii "CAP NOT HELD " ++ writeLine name
      else ascii "CAP RELEASED " ++ writeLine name
  | none => ascii "ERR UNKNOWN RESOURCE " ++ writeLine name

/-- A refusal prints its reason. -/
def pokeReply (t : Target) (cycles addr value : Word) (m : Machine) : List Byte :=
  match enforcedPokeU32 t cycles addr value m with
  | .ok _ _ => writeLine (ascii "OK")
  | .error e _ => memErrorBytes e ++ ascii "\n"

def storeReply (name : NameBuf) (s : Session) : List Byte :=
  match s.comp.exportFn name.bytes maxStreamWords with
  | none => writeLine (ascii "ERR UNKNOWN FN")
  | some _ =>
      match freeSlot s.machine.mem with
      | some _ => writeLine (ascii "STORED")
      | none => writeLine (ascii "STORE FULL")

/-- The loop over the slots, `n` of them from `i` on. -/
def loadReply (c : Compiler) (mem : Mem) (name : List Byte) : Nat -> Nat -> List Byte
  | 0, _ => writeLine (ascii "NOT FOUND")
  | n + 1, i =>
      match load i slotWords mem with
      | .ok (found, words) =>
          if found.take name.length = name then
            match c.importFn name words with
            | .ok _ => writeLine (ascii "LOADED")
            | .error _ => writeLine (ascii "ERR IMPORT FAILED")
          else loadReply c mem name n (i + 1)
      | .error .noStore => writeLine (ascii "NO STORE ON THIS TARGET")
      | .error _ => loadReply c mem name n (i + 1)

/-- The names of `fn_names_iter`. -/
def fnNames (c : Compiler) : List (List Byte) :=
  ((List.finRange maxFns).map fun i => (c.fns i).name.bytes).filter fun name => !name.isEmpty

def storeListReply (c : Compiler) : List Byte :=
  if fnNames c = [] then writeLine (ascii "(no fns)")
  else (fnNames c).flatMap fun name => name ++ ascii "\r\n"

/-- Without a free slot nothing is printed. -/
def spawnReply (name : NameBuf) (s : Session) : Except Panic (List Byte) :=
  match s.comp.exportFn name.bytes maxStreamWords with
  | none => pure (writeLine (ascii "ERR UNKNOWN FN"))
  | some _ =>
      match (List.finRange 2).find? fun slot => !s.spawned slot with
      | none => pure []
      | some slot => do
          let number <- writeDecU32 (BitVec.ofNat 32 slot.val)
          pure (ascii "TASK SPAWNED slot=" ++ number ++ writeLine [])

def poolAllocReply (size : Word) (pool : PoolOffsets) : Except Panic (List Byte) :=
  match pool.alloc 0 size with
  | .ok (addr, _) => do
      let hex <- writeHexU32 addr
      pure (ascii "POOL @" ++ hex ++ writeLine [])
  | .error _ => pure (writeLine (ascii "POOL FULL"))

/-- `pool::stats`. -/
def poolStats (pool : PoolOffsets) : List (Word × Word) :=
  List.ofFn fun i => (pool i, BitVec.ofNat 32 taskPoolSize - pool i)

def poolStatsLine (i : Nat) (used rem : Word) : Except Panic (List Byte) := do
  let number <- writeDecU32 (BitVec.ofNat 32 i)
  let usedText <- writeDecU32 used
  let remText <- writeDecU32 rem
  pure (ascii "pool[" ++ number ++ ascii "] used=" ++ usedText ++ ascii " free=" ++ remText ++
    writeLine [])

def poolStatsReply (pool : PoolOffsets) : Except Panic (List Byte) := do
  let lines <- (poolStats pool).zipIdx.mapM fun p => poolStatsLine p.2 p.1.1 p.1.2
  pure lines.flatten

/-- What device drivers and running code return to `execute`. -/
structure Heard where
  value : Option Word
  peeked : Word
  spi : Byte
  flash : Bool
  bench : BenchFigures
deriving DecidableEq, Repr

def Heard.silent : Heard where
  value := none
  peeked := 0#32
  spi := 0#8
  flash := false
  bench := ⟨0#32, none⟩

/-- `reply` on ARM, `refusal` elsewhere. -/
def armReply (b : Build) (refusal : String) (reply : Except Panic (List Byte)) :
    Except Panic (List Byte) :=
  match b.target with
  | .arm => reply
  | .riscv32 => pure (writeLine (ascii refusal))

/-- What `execute` prints. -/
def reply (b : Build) (input : Input) (heard : Heard) (outcome : Outcome) (s : Session) :
    Except Panic (List Byte) :=
  match outcome with
  | .empty => pure []
  | .help => pure printHelp
  | .banner => pure kernelBanner
  | .bound name value => do
      let text <- writeValue value
      pure (name.bytes ++ ascii " = " ++ text)
  | .fnDefined name => pure (ascii "FN " ++ name.bytes ++ writeLine (ascii " DEFINED"))
  | .run _ =>
      match heard.value with
      | some value => do
          let text <- writeValue value
          pure (ascii "= " ++ text)
      | none => pure (writeLine (ascii "OK"))
  | .claim name => claimReply name.bytes (s.registry b)
  | .drop name => pure (dropReply name.bytes (s.registry b))
  | .enforcedPoke addr val => pure (pokeReply b.target input.cycles addr val s.machine)
  | .enforcedPeek addr =>
      match enforcedPeekU32 b.target addr s.machine with
      | .ok _ _ => do
          let text <- writeValue heard.peeked
          pure (ascii "= " ++ text)
      | .error e _ => pure (memErrorBytes e ++ ascii "\n")
  -- a read that nothing answers never gets here
  | .setBit addr bit =>
      match input.answers addr with
      | some v => pure (pokeReply b.target input.cycles addr (v ||| bitMask bit) s.machine)
      | none => pure []
  | .clrBit addr bit =>
      match input.answers addr with
      | some v => pure (pokeReply b.target input.cycles addr (v &&& ~~~bitMask bit) s.machine)
      | none => pure []
  | .sysAudit => handleAudit s.machine.audit
  | .bench => benchReport heard.bench
  | .pwm period duty => do
      let arr <- writeDecU32 period
      let ccr <- writeLineU32 duty
      pure (ascii "PWM ARR=" ++ arr ++ ascii " CCR1=" ++ ccr)
  | .pwmDuty _ => pure (writeLine (ascii "OK"))
  | .spiTx _ => do
      let rx <- writeLineU32 (heard.spi.setWidth 32)
      pure (ascii "SPI RX=" ++ rx)
  | .store name => armReply b "NO STORE ON THIS TARGET" (pure (storeReply name s))
  | .load name => armReply b "NO STORE ON THIS TARGET"
      (pure (loadReply s.comp s.machine.mem name.bytes maxPrograms 0))
  | .storeList => armReply b "NO STORE ON THIS TARGET" (pure (storeListReply s.comp))
  | .spawn name => armReply b "SPAWN: arm only" (spawnReply name s)
  | .poolAlloc size => armReply b "NO POOL ON THIS TARGET" (poolAllocReply size s.pool)
  | .poolFree => armReply b "NO POOL ON THIS TARGET" (pure (writeLine (ascii "POOL RESET")))
  | .poolStats => armReply b "NO POOL ON THIS TARGET" (poolStatsReply s.pool)
  | .flashTest => pure (ascii "FLASH SELF-TEST: " ++ writeLine
      (if heard.flash then ascii "HONORS PROGRAMMING" else ascii "STUB (writes ignored)"))

/-- What an ended line prints before the next prompt. -/
def printOutcome (b : Build) (input : Input) (heard : Heard) (s : Session) :
    Except Panic (List Byte) :=
  match compileLine b input s with
  | none => pure []
  | some (.ok outcome ps) => reply b input heard outcome { s with comp := ps.comp }
  | some (.error (.error e) _) => pure (ascii "ERR " ++ errorText e)
  -- the line does not return
  | some (.error _ _) => pure []

/-!
## The formatter
-/

theorem appendTo_eq {capacity : Nat} {buf bs : List Byte}
    (h : buf.length + bs.length ≤ capacity) : appendTo capacity buf bs = .ok (buf ++ bs) := by
  induction bs generalizing buf with
  | nil =>
      rw [List.append_nil]
      rfl
  | cons b bs ih =>
      rw [List.length_cons] at h
      have hrest : appendTo capacity (buf ++ [b]) bs = .ok (buf ++ [b] ++ bs) :=
        ih (by rw [List.length_append, List.length_singleton]; lia)
      unfold appendTo at hrest ⊢
      rw [List.foldlM_cons, if_pos (by lia)]
      exact hrest.trans (by rw [List.append_assoc]; rfl)

theorem length_decimalText_le {n value : Nat} (h : value < 10 ^ (n + 1)) :
    (decimalText value).length ≤ n + 1 := by
  induction n generalizing value with
  | zero =>
      rw [decimalText, if_pos (by lia)]
      exact Nat.le_refl _
  | succ n ih =>
      rw [decimalText]
      split
      · exact Nat.succ_le_succ (Nat.zero_le _)
      · have hrest : value / 10 < 10 ^ (n + 1) := by
          rw [Nat.div_lt_iff_lt_mul (by decide), ← Nat.pow_succ]
          exact h
        rw [List.length_append]
        exact Nat.add_le_add_right (ih hrest) 1

/-- The buffers are large enough for every number. -/
theorem formatU64_eq {label suffix : List Byte} (v : BitVec 64)
    (h : label.length + suffix.length ≤ 76) :
    formatU64 label v suffix = .ok (label ++ decimalText v.toNat ++ suffix) := by
  have hvalue : v.toNat < 10 ^ (19 + 1) := Nat.lt_trans v.isLt (by decide)
  obtain ⟨scratch, len, hfill, hle, hdigits⟩ :=
    @fillScratch_spec 21 19 0 v.toNat (List.replicate 20 0#8) hvalue (by decide) (by decide)
  rw [List.take_zero, List.reverse_nil, List.append_nil] at hdigits
  have hlength := length_decimalText_le hvalue
  unfold formatU64
  rw [appendTo_eq (by rw [List.length_nil]; lia), hfill]
  show (emitScratch scratch len >>= fun digits => appendTo 96 ([] ++ label) digits >>=
    fun buf => appendTo 96 buf suffix) = _
  rw [emitScratch_eq hle, hdigits]
  show (appendTo 96 label (decimalText v.toNat) >>= fun buf => appendTo 96 buf suffix) = _
  rw [appendTo_eq (by lia)]
  exact appendTo_eq (by rw [List.length_append]; lia)

/-!
## Ends of lines
-/

/-- The last line of the text is ended. -/
def Ended (text : List Byte) : Prop := exists body, text = body ++ [lineFeed]

def EndsLine (text : List Byte) : Prop := text = [] ∨ Ended text

theorem Ended.append {text : List Byte} (h : Ended text) (before : List Byte) :
    Ended (before ++ text) := by
  obtain ⟨body, rfl⟩ := h
  exact ⟨before ++ body, (List.append_assoc _ _ _).symm⟩

theorem Ended.endsLine {text : List Byte} (h : Ended text) : EndsLine text := Or.inr h

theorem Ended.append_endsLine {text more : List Byte} (h : Ended text) (hmore : EndsLine more) :
    Ended (text ++ more) := by
  rcases hmore with rfl | hended
  · rw [List.append_nil]
    exact h
  · exact hended.append text

theorem ended_of_getLast? {text : List Byte} (h : text.getLast? = some lineFeed) : Ended text :=
  ⟨text.dropLast, (List.dropLast_append_getLast? lineFeed h).symm⟩

theorem ended_crlf : Ended (ascii "\r\n") := ended_of_getLast? rfl

theorem ended_lf : Ended (ascii "\n") := ended_of_getLast? rfl

theorem ended_writeLine (s : List Byte) : Ended (writeLine s) := ended_crlf.append s

theorem endsLine_flatMap {f : α -> List Byte} (h : forall a, Ended (f a)) (as : List α) :
    EndsLine (as.flatMap f) := by
  induction as with
  | nil => exact Or.inl rfl
  | cons a as ih =>
      rw [List.flatMap_cons]
      exact ((h a).append_endsLine ih).endsLine

/-!
## Every reply ends its line
-/

/-- The printer does not panic, and its text ends its last line. -/
def Prints (x : Except Panic (List Byte)) : Prop := exists text, x = .ok text ∧ EndsLine text

theorem prints_pure {text : List Byte} (h : Ended text) : Prints (pure text) :=
  ⟨text, rfl, h.endsLine⟩

theorem writeValue_eq (value : Word) : exists text, writeValue value = .ok text ∧ Ended text := by
  unfold writeValue
  rw [writeHexU32_eq, writeDecU32_eq]
  exact ⟨_, rfl, ended_crlf.append _⟩

theorem prints_value (value : Word) (before : List Byte) :
    Prints (writeValue value >>= fun text => pure (before ++ text)) := by
  obtain ⟨text, htext, hended⟩ := writeValue_eq value
  rw [htext]
  exact prints_pure (hended.append before)

theorem writeLineU32_eq (value : Word) :
    writeLineU32 value = .ok (ascii "0x" ++ hexText value ++ ascii "\r\n") := by
  unfold writeLineU32
  rw [writeHexU32_eq]
  rfl

theorem ended_errorText (e : ParseError) : Ended (errorText e) := by
  cases e <;> exact ended_of_getLast? rfl

theorem ended_handleAudit (log : AuditLog) : exists text, handleAudit log = .ok text ∧
    Ended text := by
  have hentry : forall e, Ended (entryText e) := fun e => ended_crlf.append _
  rw [handleAudit_eq]
  exact ⟨_, rfl, ((ended_of_getLast? rfl).append _).append_endsLine (endsLine_flatMap hentry _)⟩

theorem prints_benchReport (f : BenchFigures) : Prints (benchReport f) := by
  have hexec : Ended (ascii " cyc/exec\r\n") := ended_of_getLast? rfl
  unfold benchReport
  rw [formatU64_eq _ (by decide)]
  cases f.native with
  | none => exact prints_pure ((hexec.append _).append _)
  | some figures =>
      obtain ⟨first, native⟩ := figures
      dsimp only
      rw [formatU64_eq _ (by decide), formatU64_eq _ (by decide)]
      by_cases hnative : native = 0#32
      · simp only [if_pos hnative]
        exact prints_pure (((hexec.append _).append _).append_endsLine (Or.inl rfl))
      · simp only [if_neg hnative]
        rw [formatU64_eq _ (by decide)]
        exact prints_pure (((ended_of_getLast? rfl).append _).append _)

theorem prints_claimReply (name : List Byte) (r : Registry) : Prints (claimReply name r) := by
  unfold claimReply
  cases resolveName name with
  | none => exact prints_pure ((ended_writeLine name).append _)
  | some id =>
      dsimp only
      split
      · rw [writeDecU32_eq]
        exact prints_pure (ended_lf.append _)
      · exact prints_pure ((ended_writeLine name).append _)

theorem ended_dropReply (name : List Byte) (r : Registry) : Ended (dropReply name r) := by
  unfold dropReply
  cases resolveName name with
  | none => exact (ended_writeLine name).append _
  | some id =>
      dsimp only
      split
      · exact (ended_writeLine name).append _
      · exact (ended_writeLine name).append _

theorem ended_pokeReply (t : Target) (cycles addr value : Word) (m : Machine) :
    Ended (pokeReply t cycles addr value m) := by
  unfold pokeReply
  cases enforcedPokeU32 t cycles addr value m with
  | ok _ _ => exact ended_writeLine _
  | error e _ => exact ended_lf.append _

theorem ended_storeReply (name : NameBuf) (s : Session) : Ended (storeReply name s) := by
  unfold storeReply
  cases s.comp.exportFn name.bytes maxStreamWords with
  | none => exact ended_writeLine _
  | some words =>
      dsimp only
      cases freeSlot s.machine.mem with
      | none => exact ended_writeLine _
      | some i => exact ended_writeLine _

theorem ended_loadReply (c : Compiler) (mem : Mem) (name : List Byte) (n i : Nat) :
    Ended (loadReply c mem name n i) := by
  induction n generalizing i with
  | zero => exact ended_writeLine _
  | succ n ih =>
      unfold loadReply
      cases load i slotWords mem with
      | error e =>
          cases e with
          | noStore => exact ended_writeLine _
          | _ => exact ih (i + 1)
      | ok found =>
          dsimp only
          split
          · cases c.importFn name found.2 with
            | ok _ => exact ended_writeLine _
            | error _ => exact ended_writeLine _
          · exact ih (i + 1)

theorem endsLine_storeListReply (c : Compiler) : EndsLine (storeListReply c) := by
  unfold storeListReply
  split
  · exact (ended_writeLine _).endsLine
  · exact endsLine_flatMap (fun name => ended_crlf.append name) _

theorem prints_spawnReply (name : NameBuf) (s : Session) : Prints (spawnReply name s) := by
  unfold spawnReply
  cases s.comp.exportFn name.bytes maxStreamWords with
  | none => exact prints_pure (ended_writeLine _)
  | some words =>
      dsimp only
      cases (List.finRange 2).find? fun slot => !s.spawned slot with
      | none => exact ⟨[], rfl, Or.inl rfl⟩
      | some slot =>
          dsimp only
          rw [writeDecU32_eq]
          exact prints_pure ((ended_writeLine []).append _)

theorem prints_poolAllocReply (size : Word) (pool : PoolOffsets) :
    Prints (poolAllocReply size pool) := by
  unfold poolAllocReply
  cases pool.alloc 0 size with
  | error e => exact prints_pure (ended_writeLine _)
  | ok block =>
      dsimp only
      rw [writeHexU32_eq]
      exact prints_pure ((ended_writeLine []).append _)

theorem poolStatsLine_eq (i : Nat) (used rem : Word) :
    exists text, poolStatsLine i used rem = .ok text ∧ Ended text := by
  unfold poolStatsLine
  rw [writeDecU32_eq, writeDecU32_eq, writeDecU32_eq]
  exact ⟨_, rfl, (ended_writeLine []).append _⟩

/-- Lines that are printed one after the other. -/
theorem prints_lines {line : α -> Except Panic (List Byte)}
    (hline : forall a, exists text, line a = .ok text ∧ Ended text) (as : List α) :
    Prints (as.mapM line >>= fun lines => pure lines.flatten) := by
  choose text htext using hline
  have hlines : line = fun a => pure (text a) := funext fun a => (htext a).left
  rw [hlines, List.mapM_pure]
  exact ⟨_, rfl, endsLine_flatMap (fun a => (htext a).right) as⟩

theorem prints_armReply {b : Build} {x : Except Panic (List Byte)} (refusal : String)
    (h : Prints x) : Prints (armReply b refusal x) := by
  unfold armReply
  cases b.target with
  | arm => exact h
  | riscv32 => exact prints_pure (ended_writeLine _)

/-- Whatever a line asks for, its reply is printed, and the next output begins a line. -/
theorem prints_reply (b : Build) (input : Input) (heard : Heard) (outcome : Outcome)
    (s : Session) : Prints (reply b input heard outcome s) := by
  cases outcome with
  | empty => exact ⟨[], rfl, Or.inl rfl⟩
  | help => exact prints_pure (ended_writeLine _)
  | banner => exact prints_pure (ended_of_getLast? rfl)
  | bound name value => exact prints_value value _
  | fnDefined name => exact prints_pure ((ended_writeLine _).append _)
  | run program =>
      unfold reply
      cases heard.value with
      | some value => exact prints_value value _
      | none => exact prints_pure (ended_writeLine _)
  | claim name => exact prints_claimReply name.bytes _
  | drop name => exact prints_pure (ended_dropReply name.bytes _)
  | enforcedPoke addr val => exact prints_pure (ended_pokeReply _ _ _ _ _)
  | enforcedPeek addr =>
      unfold reply
      dsimp only
      cases enforcedPeekU32 b.target addr s.machine with
      | ok _ _ => exact prints_value heard.peeked _
      | error e _ => exact prints_pure (ended_lf.append _)
  | setBit addr bit =>
      unfold reply
      dsimp only
      cases input.answers addr with
      | some v => exact prints_pure (ended_pokeReply _ _ _ _ _)
      | none => exact ⟨[], rfl, Or.inl rfl⟩
  | clrBit addr bit =>
      unfold reply
      dsimp only
      cases input.answers addr with
      | some v => exact prints_pure (ended_pokeReply _ _ _ _ _)
      | none => exact ⟨[], rfl, Or.inl rfl⟩
  | sysAudit =>
      obtain ⟨text, htext, hended⟩ := ended_handleAudit s.machine.audit
      exact ⟨text, htext, hended.endsLine⟩
  | bench => exact prints_benchReport heard.bench
  | pwm period duty =>
      unfold reply
      dsimp only
      rw [writeDecU32_eq, writeLineU32_eq]
      exact prints_pure ((ended_crlf.append _).append _)
  | pwmDuty duty => exact prints_pure (ended_writeLine _)
  | spiTx rx =>
      unfold reply
      dsimp only
      rw [writeLineU32_eq]
      exact prints_pure ((ended_crlf.append _).append _)
  | store name => exact prints_armReply _ (prints_pure (ended_storeReply name s))
  | load name => exact prints_armReply _ (prints_pure (ended_loadReply _ _ _ _ _))
  | storeList => exact prints_armReply _ ⟨_, rfl, endsLine_storeListReply s.comp⟩
  | spawn name => exact prints_armReply _ (prints_spawnReply name s)
  | poolAlloc size => exact prints_armReply _ (prints_poolAllocReply size s.pool)
  | poolFree => exact prints_armReply _ (prints_pure (ended_writeLine _))
  | poolStats => exact prints_armReply _ (prints_lines (fun _ => poolStatsLine_eq _ _ _) _)
  | flashTest => exact prints_pure ((ended_writeLine _).append _)

theorem prints_printOutcome (b : Build) (input : Input) (heard : Heard) (s : Session) :
    Prints (printOutcome b input heard s) := by
  unfold printOutcome
  cases compileLine b input s with
  | none => exact ⟨[], rfl, Or.inl rfl⟩
  | some result =>
      cases result with
      | ok outcome ps => exact prints_reply b input heard outcome _
      | error abort ps =>
          cases abort with
          | error e => exact prints_pure ((ended_errorText e).append _)
          | _ => exact ⟨[], rfl, Or.inl rfl⟩

end Drivers
end HolyRust
