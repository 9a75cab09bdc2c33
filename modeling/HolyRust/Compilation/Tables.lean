import HolyRust.Compilation.Filling
import HolyRust.Compilation.Outcomes
import HolyRust.Compilation.Tokens

/-!
# What is in the tables

A name that was bound is found again, and stays found while other names are bound: the
open addressing never empties a slot.  Functions are never replaced.
-/

namespace HolyRust
namespace Compilation

open Foundation

/-!
## Symbols
-/

/-- The slot is free, or holds `name` already. -/
def Compiler.Takes (c : Compiler) (name : List Byte) (i : Fin symbolSlots) : Prop :=
  c.symbols i = none ∨ exists s, c.symbols i = some s ∧ s.name.bytes = name

/-- The table with `name` bound in slot `i`. -/
def Compiler.bindAt (c : Compiler) (name : NameBuf) (value : Word) (i : Fin symbolSlots) :
    Compiler :=
  { c with symbols := fun j => if j = i then some ⟨name, value⟩ else c.symbols j }

theorem symbols_bindAt_self (c : Compiler) (name : NameBuf) (value : Word)
    (i : Fin symbolSlots) : (c.bindAt name value i).symbols i = some ⟨name, value⟩ :=
  if_pos rfl

theorem symbols_bindAt_of_ne (c : Compiler) (name : NameBuf) (value : Word)
    {i j : Fin symbolSlots} (h : j ≠ i) : (c.bindAt name value i).symbols j = c.symbols j :=
  if_neg h

/-- An insertion takes the first slot that it can take, and the probe that found it finds
it again. -/
theorem insertLoop_ok {c c' : Compiler} {name : NameBuf} {value : Word} {start n step : Nat}
    (h : c.insertLoop name value start n step = .ok c') :
    exists k, c.Takes name.bytes (Compiler.probe start k) ∧
      c' = c.bindAt name value (Compiler.probe start k) ∧
      c'.lookupLoop name.bytes start n step = some value ∧
      forall k', step ≤ k' -> k' < k -> c.symbols (Compiler.probe start k') ≠ none ∧
        ¬ c.Takes name.bytes (Compiler.probe start k') := by
  induction n generalizing step with
  | zero => cases h
  | succ n ih =>
      simp only [Compiler.insertLoop] at h
      cases hslot : c.symbols (Compiler.probe start step) with
      | none =>
          rw [hslot] at h
          cases h
          refine ⟨step, Or.inl hslot, rfl, ?_, fun k' hle hlt => absurd hlt (Nat.not_lt.mpr hle)⟩
          simp only [Compiler.lookupLoop, if_true]
      | some s =>
          rw [hslot] at h
          dsimp only at h
          by_cases hname : s.name.bytes = name.bytes
          · rw [if_pos hname] at h
            cases h
            refine ⟨step, Or.inr ⟨s, hslot, hname⟩, rfl, ?_,
              fun k' hle hlt => absurd hlt (Nat.not_lt.mpr hle)⟩
            simp only [Compiler.lookupLoop, if_true]
          · rw [if_neg hname] at h
            obtain ⟨k, htakes, rfl, hlookup, hfirst⟩ := ih h
            -- this slot is taken by another name, so it is not the one that was written
            have hpassed : ¬ c.Takes name.bytes (Compiler.probe start step) := by
              rintro (hnone | ⟨s', hs', hname'⟩)
              · rw [hslot] at hnone
                cases hnone
              · rw [hslot] at hs'
                cases hs'
                exact hname hname'
            have hother : Compiler.probe start step ≠ Compiler.probe start k := by
              intro heq
              rw [heq] at hpassed
              exact hpassed htakes
            refine ⟨k, htakes, rfl, ?_, ?_⟩
            · simp only [Compiler.lookupLoop]
              rw [symbols_bindAt_of_ne _ _ _ hother, hslot]
              dsimp only
              rw [if_neg hname]
              exact hlookup
            · intro k' hle hlt
              rcases Nat.eq_or_lt_of_le hle with rfl | hstep
              · exact ⟨by rw [hslot]; exact Option.some_ne_none s, hpassed⟩
              · exact hfirst k' hstep hlt

theorem lookup_insert {c c' : Compiler} {name : NameBuf} {value : Word}
    (h : c.insertSymbol name value = .ok c') : c'.lookupSymbol name.bytes = some value := by
  obtain ⟨_, _, _, hlookup, _⟩ := insertLoop_ok h
  exact hlookup

/-- A probe that finds `name` passes a slot given to another name. -/
theorem lookupLoop_bindAt {c : Compiler} {other : NameBuf} {value w : Word} {name : List Byte}
    {i : Fin symbolSlots} (htakes : c.Takes other.bytes i) (hne : other.bytes ≠ name)
    {start n step : Nat} (h : c.lookupLoop name start n step = some w) :
    (c.bindAt other value i).lookupLoop name start n step = some w := by
  induction n generalizing step with
  | zero => cases h
  | succ n ih =>
      simp only [Compiler.lookupLoop] at h ⊢
      cases hslot : c.symbols (Compiler.probe start step) with
      | none =>
          rw [hslot] at h
          cases h
      | some s =>
          rw [hslot] at h
          dsimp only at h
          by_cases hi : Compiler.probe start step = i
          · have hname : s.name.bytes = other.bytes := by
              rcases htakes with hnone | ⟨s', hs', hname'⟩
              · rw [← hi, hslot] at hnone
                cases hnone
              · rw [← hi, hslot] at hs'
                cases hs'
                exact hname'
            rw [hname, if_neg hne] at h
            rw [hi, symbols_bindAt_self]
            dsimp only
            rw [if_neg hne]
            exact ih h
          · rw [symbols_bindAt_of_ne _ _ _ hi, hslot]
            dsimp only
            by_cases hname : s.name.bytes = name
            · rw [if_pos hname] at h ⊢
              exact h
            · rw [if_neg hname] at h ⊢
              exact ih h

theorem lookup_insert_of_ne {c c' : Compiler} {other : NameBuf} {value w : Word}
    {name : List Byte} (h : c.insertSymbol other value = .ok c') (hne : other.bytes ≠ name)
    (hlookup : c.lookupSymbol name = some w) : c'.lookupSymbol name = some w := by
  obtain ⟨k, htakes, rfl, _⟩ := insertLoop_ok h
  exact lookupLoop_bindAt htakes hne hlookup

theorem fns_insert {c c' : Compiler} {name : NameBuf} {value : Word}
    (h : c.insertSymbol name value = .ok c') : c'.fns = c.fns := by
  obtain ⟨_, _, rfl, _⟩ := insertLoop_ok h
  rfl

theorem lookupSymbol_of_symbols {c c' : Compiler} (h : c'.symbols = c.symbols) (name : List Byte) :
    c'.lookupSymbol name = c.lookupSymbol name := by
  unfold Compiler.lookupSymbol
  generalize Compiler.hash name = start
  generalize symbolSlots = n
  generalize 0 = step
  induction n generalizing step with
  | zero => rfl
  | succ n ih => simp only [Compiler.lookupLoop, ih, h]

/-!
Linear probing keeps the names apart: a name stands on its own probe sequence behind
slots that are taken, so the first slot that is free or its own is the only one it can
be in.
-/

/-- Every slot that a probe passes on its way to a name is taken. -/
def Compiler.Probed (c : Compiler) : Prop :=
  forall i s, c.symbols i = some s -> exists k, Compiler.probe (Compiler.hash s.name.bytes) k = i ∧
    forall k', k' < k -> c.symbols (Compiler.probe (Compiler.hash s.name.bytes) k') ≠ none

/-- No name is bound in two slots. -/
def Compiler.NamesApart (c : Compiler) : Prop :=
  forall i j s s', c.symbols i = some s -> c.symbols j = some s' ->
    s.name.bytes = s'.name.bytes -> i = j

theorem live_bindAt {c : Compiler} {j : Fin symbolSlots} (h : c.symbols j ≠ none)
    (name : NameBuf) (value : Word) (i : Fin symbolSlots) :
    (c.bindAt name value i).symbols j ≠ none := by
  by_cases hj : j = i
  · rw [hj, symbols_bindAt_self]
    exact Option.some_ne_none _
  · rw [symbols_bindAt_of_ne _ _ _ hj]
    exact h

theorem probed_insert {c c' : Compiler} {name : NameBuf} {value : Word} (hc : c.Probed)
    (h : c.insertSymbol name value = .ok c') : c'.Probed := by
  obtain ⟨k, _, rfl, _, hfirst⟩ := insertLoop_ok h
  intro i s hs
  by_cases hi : i = Compiler.probe (Compiler.hash name.bytes) k
  · rw [hi, symbols_bindAt_self] at hs
    cases hs
    exact ⟨k, hi.symm, fun k' hlt => live_bindAt (hfirst k' (Nat.zero_le _) hlt).1 _ _ _⟩
  · rw [symbols_bindAt_of_ne _ _ _ hi] at hs
    obtain ⟨m, hm, hlive⟩ := hc i s hs
    exact ⟨m, hm, fun k' hlt => live_bindAt (hlive k' hlt) _ _ _⟩

/-- A name that is bound already is bound where the insertion puts it. -/
theorem probe_eq_of_bound {c : Compiler} (hprobed : c.Probed) (hapart : c.NamesApart)
    {name : List Byte} {k : Nat} (htakes : c.Takes name (Compiler.probe (Compiler.hash name) k))
    (hfirst : forall k', k' < k -> ¬ c.Takes name (Compiler.probe (Compiler.hash name) k'))
    {j : Fin symbolSlots} {s : Symbol} (hs : c.symbols j = some s) (hname : s.name.bytes = name) :
    j = Compiler.probe (Compiler.hash name) k := by
  obtain ⟨m, hm, hlive⟩ := hprobed j s hs
  rw [hname] at hm hlive
  rcases Nat.lt_trichotomy m k with hlt | rfl | hlt
  · exact absurd (by rw [hm]; exact Or.inr ⟨s, hs, hname⟩) (hfirst m hlt)
  · exact hm.symm
  · rcases htakes with hnone | ⟨s', hs', hname'⟩
    · exact absurd hnone (hlive k hlt)
    · exact hapart _ _ s s' hs hs' (hname.trans hname'.symm)

theorem namesApart_insert {c c' : Compiler} {name : NameBuf} {value : Word} (hprobed : c.Probed)
    (hapart : c.NamesApart) (h : c.insertSymbol name value = .ok c') : c'.NamesApart := by
  obtain ⟨k, htakes, rfl, _, hfirst⟩ := insertLoop_ok h
  have hhome : forall {j s}, c.symbols j = some s -> s.name.bytes = name.bytes ->
      j = Compiler.probe (Compiler.hash name.bytes) k := fun hs hname =>
    probe_eq_of_bound hprobed hapart htakes (fun k' hlt => (hfirst k' (Nat.zero_le _) hlt).2)
      hs hname
  intro i j s s' hs hs' hname
  by_cases hi : i = Compiler.probe (Compiler.hash name.bytes) k
  · by_cases hj : j = Compiler.probe (Compiler.hash name.bytes) k
    · rw [hi, hj]
    · rw [hi, symbols_bindAt_self] at hs
      cases hs
      rw [symbols_bindAt_of_ne _ _ _ hj] at hs'
      exact absurd (hhome hs' hname.symm) hj
  · rw [symbols_bindAt_of_ne _ _ _ hi] at hs
    by_cases hj : j = Compiler.probe (Compiler.hash name.bytes) k
    · rw [hj, symbols_bindAt_self] at hs'
      cases hs'
      exact absurd (hhome hs hname) hi
    · rw [symbols_bindAt_of_ne _ _ _ hj] at hs'
      exact hapart i j s s' hs hs' hname

/-!
## Functions
-/

/-- `name` has a function with this body. -/
def Compiler.HasFn (c : Compiler) (name : List Byte) (body : List Word) : Prop :=
  exists i, c.findFn name = some i ∧ (c.fns i).body = body

theorem allocFnSlot_ok {c : Compiler} {name : NameBuf} {i : Fin maxFns}
    (h : c.allocFnSlot name = .ok i) :
    c.findFn name.bytes = none ∧ (c.fns i).name.bytes.length = 0 := by
  unfold Compiler.allocFnSlot at h
  cases hfind : c.findFn name.bytes with
  | some j =>
      rw [hfind] at h
      cases h
  | none =>
      rw [hfind] at h
      simp only [Option.isSome_none, Bool.false_eq_true, if_false] at h
      cases hfree : (List.finRange maxFns).find? fun i =>
          decide ((c.fns i).name.bytes.length = 0) with
      | none =>
          rw [hfree] at h
          cases h
      | some j =>
          rw [hfree] at h
          cases h
          have hlength := List.find?_some hfree
          exact ⟨rfl, of_decide_eq_true hlength⟩

theorem allocFnSlot_of_free {c : Compiler} {name : NameBuf} (hlacks : c.findFn name.bytes = none)
    (hfree : exists i, (c.fns i).name.bytes.length = 0) :
    exists i, c.allocFnSlot name = .ok i := by
  have hsome : ((List.finRange maxFns).find? fun i =>
      decide ((c.fns i).name.bytes.length = 0)).isSome = true := by
    obtain ⟨i, hi⟩ := hfree
    rw [List.find?_isSome]
    exact ⟨i, List.mem_finRange i, decide_eq_true hi⟩
  obtain ⟨i, hfind⟩ := Option.isSome_iff_exists.mp hsome
  refine ⟨i, ?_⟩
  unfold Compiler.allocFnSlot
  rw [hlacks, hfind]
  rfl

/-- An import is a definition in a free slot. -/
theorem importFn_ok {c c' : Compiler} {name : List Byte} {words : List Word}
    (h : c.importFn name words = .ok c') :
    exists nb i hlength, c.allocFnSlot nb = .ok i ∧ c' = c.setFn i ⟨nb, words, hlength⟩ := by
  unfold Compiler.importFn at h
  by_cases hname : nameMax < name.length
  · rw [if_pos hname] at h
    cases h
  · rw [if_neg hname] at h
    by_cases hwords : words.length ≤ fnBodyWords
    · rw [dif_pos hwords] at h
      cases hnb : NameBuf.fromSlice name with
      | error e =>
          rw [hnb] at h
          cases h
      | ok nb =>
          rw [hnb] at h
          dsimp only at h
          cases halloc : c.allocFnSlot nb with
          | error e =>
              rw [halloc] at h
              cases h
          | ok i =>
              rw [halloc] at h
              cases h
              exact ⟨nb, i, hwords, halloc, rfl⟩
    · rw [dif_neg hwords] at h
      cases h

/-- A function that was put into a free slot is found there. -/
theorem hasFn_setFn {c : Compiler} {name : NameBuf} {i : Fin maxFns} {slot : FnSlot}
    (halloc : c.allocFnSlot name = .ok i) (hslot : slot.name = name) (hname : name.bytes ≠ []) :
    (c.setFn i slot).HasFn name.bytes slot.body := by
  obtain ⟨hfind, _⟩ := allocFnSlot_ok halloc
  have hlength : 0 < name.bytes.length := List.length_pos_of_ne_nil hname
  refine ⟨i, ?_, by simp [Compiler.setFn]⟩
  unfold Compiler.findFn at hfind ⊢
  have hself : ((c.setFn i slot).fnAllocated i &&
      decide (((c.setFn i slot).fns i).name.bytes = name.bytes)) = true := by
    simp [Compiler.fnAllocated, Compiler.setFn, hslot, hlength]
  cases hfound : (List.finRange maxFns).find? fun k => (c.setFn i slot).fnAllocated k &&
      decide (((c.setFn i slot).fns k).name.bytes = name.bytes) with
  | none => exact absurd hself (List.find?_eq_none.mp hfound i (List.mem_finRange i))
  | some k =>
      by_cases hk : k = i
      · rw [hk]
      · have hpred := List.find?_some hfound
        have hother : (c.fnAllocated k && decide ((c.fns k).name.bytes = name.bytes)) = true := by
          simpa [Compiler.fnAllocated, Compiler.setFn, hk] using hpred
        exact absurd hother (List.find?_eq_none.mp hfind k (List.mem_finRange k))

/-- Another name is looked up as before when a free slot is filled. -/
theorem findFn_setFn_of_ne {c : Compiler} {name : List Byte} {i : Fin maxFns} {slot : FnSlot}
    (hfree : (c.fns i).name.bytes.length = 0) (hne : slot.name.bytes ≠ name) :
    (c.setFn i slot).findFn name = c.findFn name := by
  have hsame : forall k, ((c.setFn i slot).fnAllocated k &&
      decide (((c.setFn i slot).fns k).name.bytes = name)) =
        (c.fnAllocated k && decide ((c.fns k).name.bytes = name)) := by
    intro k
    by_cases hk : k = i
    · rw [hk]
      simp [Compiler.fnAllocated, Compiler.setFn, hne, hfree]
    · simp [Compiler.fnAllocated, Compiler.setFn, hk]
  unfold Compiler.findFn
  exact congrArg (fun p => (List.finRange maxFns).find? p) (funext hsame)

theorem fns_of_findFn {c : Compiler} {name : List Byte} {i j : Fin maxFns} {slot : FnSlot}
    (hfree : (c.fns i).name.bytes.length = 0) (hj : c.findFn name = some j) :
    (c.setFn i slot).fns j = c.fns j := by
  have hpred := List.find?_some hj
  rw [Bool.and_eq_true] at hpred
  have hji : j ≠ i := by
    rintro rfl
    have hallocated := hpred.1
    unfold Compiler.fnAllocated at hallocated
    rw [hfree] at hallocated
    exact absurd hallocated (by decide)
  simp only [Compiler.setFn]
  rw [if_neg hji]

/-- A name keeps its function when another function is put into a free slot. -/
theorem hasFn_setFn_of_hasFn {c : Compiler} {name : List Byte} {body : List Word}
    {other : NameBuf} {i : Fin maxFns} {slot : FnSlot} (h : c.HasFn name body)
    (halloc : c.allocFnSlot other = .ok i) (hslot : slot.name = other) :
    (c.setFn i slot).HasFn name body := by
  obtain ⟨j, hj, hbody⟩ := h
  obtain ⟨hfind, hfree⟩ := allocFnSlot_ok halloc
  have hne : slot.name.bytes ≠ name := by
    rintro rfl
    rw [hslot, hfind] at hj
    cases hj
  refine ⟨j, ?_, ?_⟩
  · rw [findFn_setFn_of_ne hfree hne]
    exact hj
  · rw [fns_of_findFn hfree hj]
    exact hbody

theorem hasFn_of_fns {c c' : Compiler} {name : List Byte} {body : List Word}
    (h : c'.fns = c.fns) (hfn : c.HasFn name body) : c'.HasFn name body := by
  obtain ⟨i, hfind, hbody⟩ := hfn
  refine ⟨i, ?_, by rw [h]; exact hbody⟩
  rw [← hfind]
  unfold Compiler.findFn Compiler.fnAllocated
  rw [h]

/-!
## What a line does to the tables
-/

/-- An accepted line binds its name, defines its function, or leaves the tables alone. -/
def Effect (c : Compiler) : Outcome -> Compiler -> Prop
  | .bound name value, c' => IsIdent name.bytes ∧ c.insertSymbol name value = .ok c'
  | .fnDefined name, c' => IsIdent name.bytes ∧ exists i h, c.allocFnSlot name = .ok i ∧
      c' = (c.withStream c'.stream).setFn i ⟨name, c'.stream.words, h⟩
  | _, c' => SameTables c c'

theorem effect_of_run {c c' : Compiler} {outcome : Outcome}
    (h : exists program, outcome = .run program) (htables : SameTables c c') :
    Effect c outcome c' := by
  obtain ⟨program, rfl⟩ := h
  exact htables

theorem effect_of_answers {env : Env} {command : Command} {c c' : Compiler} {outcome : Outcome}
    (h : Answers env command outcome) (htables : SameTables c c') : Effect c outcome c' := by
  cases command with
  | help | banner | sysAudit | bench | storeList | flashTest | poolFree | poolStats =>
      cases h
      exact htables
  | capClaim | capDrop | store | load | loop | poolAlloc | spawn =>
      obtain ⟨_, rfl⟩ := h
      exact htables
  | peek | pwmDuty | spiTx =>
      obtain ⟨_, rfl, _⟩ := h
      exact htables
  | poke | regSetBit | regClrBit | pwm =>
      obtain ⟨_, _, rfl, _⟩ := h
      exact htables

theorem effect_of_keeps {c : Compiler} {s : ParseState} {x : ParseM Outcome} {P : Outcome -> Prop}
    (hc : s.comp = c) (hkeeps : Keeps x) (hreturns : Returns P x)
    (heffect : forall outcome c', P outcome -> SameTables c c' -> Effect c outcome c') :
    Sat x s (fun outcome s' => Effect c outcome s'.comp) (fun _ _ => True) := by
  refine sat_mono (sat_and (hreturns s) (hkeeps s)) ?_ (fun _ _ _ => trivial)
  intro outcome s' h
  rw [hc] at h
  exact heffect outcome s'.comp h.1 h.2

/-- The name of a definition is an identifier of the line. -/
theorem sat_expectName {s : ParseState} {ts : List Token} (h : s.Has ts)
    (hlexed : forall t, t ∈ ts -> t.Lexed) :
    Sat expectName s (fun name s' => IsIdent name.bytes ∧ s'.comp = s.comp)
      (fun _ _ => True) := by
  refine sat_mono (took_expectName h) ?_ (fun _ _ _ => trivial)
  rintro name s' ⟨rest, rfl, hs'⟩
  exact ⟨hlexed _ List.mem_cons_self, hs'.comp⟩

/-- The parser does not touch the compiler. -/
def Quiet (x : ParseM α) : Prop :=
  forall s, Sat x s (fun _ s' => s'.comp = s.comp) (fun _ _ => True)

theorem quiet_scanning (x : Compiler -> ScanM α) : Quiet (scanning x) := by
  intro s
  apply sat_scanning
  unfold Sat
  cases x s.comp s.scan with
  | ok a scan => rfl
  | error e scan => trivial

theorem quiet_bind {x : ParseM α} {f : α -> ParseM β} (hx : Quiet x)
    (hf : forall a, Quiet (f a)) : Quiet (x >>= f) := by
  intro s
  refine sat_seq (hx s) fun a s' hs' => ?_
  exact sat_mono (hf a s') (fun _ _ h => h.trans hs') (fun _ _ _ => trivial)

theorem composes_quiet : Composes (fun x _ => Quiet x) where
  onPure _ _ := rfl
  onReject _ _ := trivial
  onBind := quiet_bind

theorem onTokens_quiet : OnTokens (fun x _ => Quiet x) where
  toComposes := composes_quiet
  onNext := quiet_scanning _
  onPeek := quiet_scanning _

theorem quiet_expectToken (t : Token) : Quiet (expectToken t) :=
  related_expectToken onTokens_quiet t

theorem quiet_expectSemicolon : Quiet expectSemicolon :=
  related_expectSemicolon onTokens_quiet

theorem effect_parseLet (env : Env) (fuel : Nat) {s : ParseState} {ts : List Token}
    (h : s.Has ts) (hlexed : forall t, t ∈ ts -> t.Lexed) :
    Sat (parseLet env fuel) s (fun outcome s' => Effect s.comp outcome s'.comp)
      (fun _ _ => True) := by
  refine sat_seq (sat_expectName h hlexed) fun name s1 hs1 => ?_
  refine sat_seq (quiet_expectToken _ s1) fun _ s2 hs2 => ?_
  refine sat_seq (quiet_scanning _ s2) fun value s3 hs3 => ?_
  refine sat_seq (quiet_expectSemicolon s3) fun _ s4 hs4 => ?_
  have hcomp : s4.comp = s.comp := by rw [hs4, hs3, hs2, hs1.2]
  rw [sat_bind, sat_get, hcomp]
  cases hinsert : s.comp.insertSymbol name value with
  | ok c => exact ⟨hs1.1, hinsert⟩
  | error e => trivial

/-- The stream becomes the body of the function. -/
theorem effect_defineFn {c : Compiler} {name : NameBuf} {s : ParseState}
    (hname : IsIdent name.bytes) (h : SameTables c s.comp) :
    Sat (defineFn name >>= fun _ => (pure (.fnDefined name) : ParseM Outcome)) s
      (fun outcome s' => Effect c outcome s'.comp) (fun _ _ => True) := by
  unfold defineFn
  rw [sat_bind, sat_bind, sat_get]
  by_cases hlength : s.comp.stream.words.length ≤ fnBodyWords
  · rw [dif_pos hlength]
    have hcomp := eq_withStream h
    have halloc : s.comp.allocFnSlot name = c.allocFnSlot name := by
      rw [hcomp]
      rfl
    cases hslot : s.comp.allocFnSlot name with
    | ok i =>
        refine ⟨hname, i, hlength, halloc ▸ hslot, ?_⟩
        show s.comp.setFn i ⟨name, s.comp.stream.words, hlength⟩ =
          (c.withStream s.comp.stream).setFn i ⟨name, s.comp.stream.words, hlength⟩
        rw [← hcomp]
    | error e => trivial
  · rw [dif_neg hlength]
    trivial

theorem effect_parseFn (env : Env) (fuel : Nat) {s : ParseState} {ts : List Token}
    (h : s.Has ts) (hlexed : forall t, t ∈ ts -> t.Lexed) :
    Sat (parseFn env fuel) s (fun outcome s' => Effect s.comp outcome s'.comp)
      (fun _ _ => True) := by
  have keepsOk : forall {β : Type} {x : ParseM β} (hx : Keeps x) (s : ParseState),
      Sat x s (fun _ s' => SameTables s.comp s'.comp) (fun _ _ => True) :=
    fun hx s => sat_mono (hx s) (fun _ _ h => h) (fun _ _ _ => trivial)
  refine sat_seq (sat_expectName h hlexed) fun name s1 hs1 => ?_
  refine sat_seq (quiet_expectToken _ s1) fun _ s2 hs2 => ?_
  refine sat_seq (quiet_expectToken _ s2) fun _ s3 hs3 => ?_
  refine sat_seq (quiet_expectToken _ s3) fun _ s4 hs4 => ?_
  refine sat_seq (keepsOk (keeps_setStream _) s4) fun _ s5 hs5 => ?_
  refine sat_seq (keepsOk (keeps_parseBlock env fuel) s5) fun _ s6 hs6 => ?_
  have hcomp : s4.comp = s.comp := by rw [hs4, hs3, hs2, hs1.2]
  rw [hcomp] at hs5
  exact effect_defineFn hs1.1 (sameTables_trans hs5 hs6)

theorem effect_parseLine (env : Env) (fuel : Nat) {s : ParseState} {ts : List Token}
    (h : s.Has ts) (hlexed : forall t, t ∈ ts -> t.Lexed) :
    Sat (parseLine env fuel) s (fun outcome s' => Effect s.comp outcome s'.comp)
      (fun _ _ => True) := by
  refine sat_seq (has_nextToken h) fun first s' hs' => ?_
  obtain ⟨_, hmoved⟩ := hs'
  have hrest : forall t, t ∈ ts.tail -> t.Lexed := fun t ht => hlexed t (List.mem_of_mem_tail ht)
  have hvalue : forall tok, Sat (valueCommand env fuel tok) s'
      (fun outcome s'' => Effect s.comp outcome s''.comp) (fun _ _ => True) := fun tok =>
    effect_of_keeps hmoved.comp (keeps_valueCommand env fuel tok)
      (returns_valueCommand env fuel tok) fun _ _ => effect_of_run
  rw [← hmoved.comp] at *
  cases first with
  | kwLet => exact effect_parseLet env fuel hmoved.tokens hrest
  | kwFn => exact effect_parseFn env fuel hmoved.tokens hrest
  | identifier id =>
      show Sat (parseCommand env fuel id) s' _ _
      unfold parseCommand
      cases commandOf id with
      | some command =>
          exact effect_of_keeps rfl (keeps_runCommand env fuel command)
            (returns_runCommand env fuel command) fun _ _ => effect_of_answers
      | none =>
          exact effect_of_keeps rfl (keeps_callOrValue env fuel id)
            (returns_callOrValue env fuel id) fun _ _ => effect_of_run
  | literal v => exact hvalue _
  | operator op => exact hvalue _
  | lParen => exact hvalue _
  | _ => trivial

theorem parse_effect {env : Env} {c : Compiler} {line : List Byte} {outcome : Outcome}
    {s : ParseState} (h : parse env c line = .ok outcome s) : Effect c outcome s.comp := by
  have hline := effect_parseLine env (parseFuel line) (has_startState c line)
    (fun _ ht => lexed_of_mem ht)
  have heffect := sat_of_ok hline h
  exact heffect

theorem isIdent_ne_nil {name : List Byte} (h : IsIdent name) : name ≠ [] := by
  obtain ⟨b, rest, hstart, _⟩ := h.starts
  rw [hstart]
  exact List.cons_ne_nil b rest

/-- What the stream holds when a definition is accepted is the body that was stored. -/
theorem hasFn_of_fnDefined {env : Env} {c : Compiler} {line : List Byte} {name : NameBuf}
    {s : ParseState} (h : parse env c line = .ok (.fnDefined name) s) :
    s.comp.HasFn name.bytes s.comp.stream.words := by
  obtain ⟨hident, i, hlength, halloc, hcomp⟩ := parse_effect h
  rw [hcomp]
  exact hasFn_setFn (c := c.withStream s.comp.stream) halloc rfl (isIdent_ne_nil hident)

end Compilation
end HolyRust
