import HolyRust.Compilation.ErrorAtomicity

/-!
# Appending to the stream

The stream has room for `maxStreamWords` words.  What is emitted goes behind what is
there if all of it fits; otherwise the parser ends with `StreamFull`, wherever in the
middle that shows.  Unrolling is no exception, although it reads the buffer it appends to.
-/

namespace HolyRust
namespace Compilation

open Foundation

theorem sameButStream_trans {s t u : ParseState} (hst : s.SameButStream t)
    (htu : t.SameButStream u) : s.SameButStream u := by
  rcases hst with ⟨stream, rfl⟩
  rcases htu with ⟨stream', rfl⟩
  exact ⟨stream', rfl⟩

theorem sameButStream_fns {s t : ParseState} (h : s.SameButStream t) :
    s.comp.fns = t.comp.fns := by
  rcases h with ⟨stream, rfl⟩
  rfl

theorem sameButStream_checked {s t : ParseState} (h : s.SameButStream t) :
    s.checked = t.checked := by
  rcases h with ⟨stream, rfl⟩
  rfl

/-- The words of the stream. -/
def ParseState.words (s : ParseState) : List Word := s.comp.stream.words

/-- If there is room for `ws` after what `s` has, the parser ends well with `ws` appended
and as `t` otherwise; if there is none, it ends with `StreamFull`. -/
def Fills (ws : List Word) (s t : ParseState) :
    EStateM.Result Abort ParseState Unit -> Prop
  | .ok _ s' => s'.SameButStream t ∧ s'.words = s.words ++ ws
  | .error e _ => e = .error .streamFull ∧ maxStreamWords < s.words.length + ws.length

/-- The parser appends `ws` and does nothing else. -/
def Emitter (ws : List Word) (x : ParseM Unit) : Prop := forall s, Fills ws s s (x s)

section Emission

variable {ws vs : List Word}

theorem fills_of_same {s t t' : ParseState} {r : EStateM.Result Abort ParseState Unit}
    (h : Fills ws s t r) (hsame : t.SameButStream t') : Fills ws s t' r := by
  cases r with
  | ok u s' => exact ⟨sameButStream_trans h.left hsame, h.right⟩
  | error e s' => exact h

/-- What fills the stream after `ws` fills it with `ws` as well, seen from before. -/
theorem fills_after {s s1 t : ParseState} {r : EStateM.Result Abort ParseState Unit}
    (hwords : s1.words = s.words ++ ws) (h : Fills vs s1 t r) : Fills (ws ++ vs) s t r := by
  cases r with
  | ok u s' => exact ⟨h.left, by rw [h.right, hwords, List.append_assoc]⟩
  | error e s' =>
      refine ⟨h.left, ?_⟩
      have hlong := h.right
      rw [hwords, List.length_append] at hlong
      rw [List.length_append]
      lia

/-- Once the first part has overflowed the stream, the rest could only add to it. -/
theorem fills_seq {x y : ParseM Unit} {s t t' : ParseState} (hx : Fills ws s t (x s))
    (hy : forall s1, s1.SameButStream t -> s1.words = s.words ++ ws -> Fills vs s1 t' (y s1)) :
    Fills (ws ++ vs) s t' ((x >>= fun _ => y) s) := by
  rw [bind_apply]
  cases hxs : x s with
  | ok u s1 =>
      rw [hxs] at hx
      exact fills_after hx.right (hy s1 hx.left hx.right)
  | error e s1 =>
      rw [hxs] at hx
      refine ⟨hx.left, ?_⟩
      have hlong := hx.right
      rw [List.length_append]
      lia

theorem emitter_pure : Emitter [] (pure () : ParseM Unit) :=
  fun s => ⟨⟨s.comp.stream, rfl⟩, (List.append_nil _).symm⟩

theorem emitter_bind {x y : ParseM Unit} (hx : Emitter ws x) (hy : Emitter vs y) :
    Emitter (ws ++ vs) (x >>= fun _ => y) :=
  fun s => fills_seq (hx s) fun s1 hsame _ => fills_of_same (hy s1) hsame

theorem emitter_streamPush (word : Word) : Emitter [word] (streamPush word) := by
  intro s
  unfold streamPush getStream
  rw [bind_apply, bind_apply, get_apply]
  dsimp only
  rw [pure_apply]
  dsimp only
  by_cases hroom : s.comp.stream.words.length < maxStreamWords
  · rw [dif_pos hroom]
    exact ⟨⟨s.comp.stream, rfl⟩, rfl⟩
  · rw [dif_neg hroom]
    refine ⟨rfl, ?_⟩
    show maxStreamWords < s.comp.stream.words.length + 1
    lia

theorem emitter_streamPushLit (env : Env) (value : Word) :
    Emitter [env.prims.wordOf .lit, value] (streamPushLit env value) :=
  emitter_bind (emitter_streamPush _) (emitter_streamPush _)

theorem emitter_pushWords (ws : List Word) : Emitter ws (pushWords ws) := by
  induction ws with
  | nil => exact emitter_pure
  | cons w ws ih => exact emitter_bind (emitter_streamPush w) ih

/-- With enough room nothing can go wrong. -/
theorem sat_of_emitter {x : ParseM Unit} (hx : Emitter ws x) {s : ParseState}
    (hroom : s.comp.stream.words.length + ws.length ≤ maxStreamWords)
    {E : Abort -> ParseState -> Prop} :
    Sat x s (fun _ s' => s'.comp.stream.words = s.comp.stream.words ++ ws) E := by
  have hfills := hx s
  unfold Sat
  cases hxs : x s with
  | ok u s' =>
      rw [hxs] at hfills
      exact hfills.right
  | error e s' =>
      rw [hxs] at hfills
      exact absurd hroom (Nat.not_le_of_lt hfills.right)

/-!
## Copies of what is there
-/

/-- Copying a segment of the stream to its end, while the stream grows. -/
theorem fills_copyRange (seg pre post : List Word) (s : ParseState)
    (hwords : s.words = pre ++ seg ++ post) :
    Fills seg s s (copyRange seg.length pre.length s) := by
  induction seg generalizing pre post s with
  | nil => exact emitter_pure s
  | cons w seg ih =>
      rw [List.length_cons, copyRange, bind_apply]
      show Fills ([w] ++ seg) s s ((do
        streamPush (s.words.getD pre.length 0#32)
        copyRange seg.length (pre.length + 1)) s)
      have hword : s.words.getD pre.length 0#32 = w := by
        rw [hwords]
        simp
      rw [hword]
      refine fills_seq (emitter_streamPush w s) fun s1 hsame hpushed => ?_
      have hwords1 : s1.words = (pre ++ [w]) ++ seg ++ (post ++ [w]) := by
        rw [hpushed, hwords]
        simp
      have hrest := ih (pre ++ [w]) (post ++ [w]) s1 hwords1
      rw [List.length_append, List.length_singleton] at hrest
      exact fills_of_same hrest hsame

theorem fills_unroll (seg pre post : List Word) (rounds : Nat) (s : ParseState)
    (hwords : s.words = pre ++ seg ++ post) :
    Fills (List.replicate rounds seg).flatten s s (unroll pre.length seg.length rounds s) := by
  induction rounds generalizing post s with
  | zero => exact emitter_pure s
  | succ rounds ih =>
      rw [List.replicate_succ, List.flatten_cons, unroll, bind_apply]
      show Fills (seg ++ (List.replicate rounds seg).flatten) s s
        ((if maxStreamWords < s.words.length + seg.length then reject .streamFull else do
          copyRange seg.length pre.length
          unroll pre.length seg.length rounds) s)
      by_cases hfull : maxStreamWords < s.words.length + seg.length
      · rw [if_pos hfull]
        refine ⟨rfl, ?_⟩
        rw [List.length_append]
        lia
      · rw [if_neg hfull]
        refine fills_seq (fills_copyRange seg pre post s hwords) fun s1 hsame hcopied => ?_
        have hwords1 : s1.words = pre ++ seg ++ (post ++ seg) := by
          rw [hcopied, hwords, List.append_assoc]
        exact fills_of_same (ih (post ++ seg) s1 hwords1) hsame

end Emission

end Compilation
end HolyRust
