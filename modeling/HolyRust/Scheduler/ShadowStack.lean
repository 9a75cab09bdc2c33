import Mathlib.Data.List.Basic

/-!
# The shadow stack

`ShadowStack` keeps the return addresses of the calls under way, at most `D_MAX` of them.
Popped addresses stay in their slots; what counts is the part below `depth`.
-/

namespace HolyRust
namespace Scheduler

/-- Maximum call depth: recursion is banned, and the depth is checked at compile time. -/
def dMax : Nat := 32

/-- An index below `depth` is an index of a slot. -/
structure ShadowStack (addr : Type) where
  slots : List addr
  depth : Nat
  length_slots : slots.length = dMax
  depth_le : depth ≤ dMax

namespace ShadowStack

variable {addr : Type}

def new (zero : addr) : ShadowStack addr where
  slots := List.replicate dMax zero
  depth := 0
  length_slots := List.length_replicate
  depth_le := Nat.zero_le _

def push (s : ShadowStack addr) (retAddr : addr) : Option (ShadowStack addr) :=
  if h : dMax ≤ s.depth then none
  else
    some
      { slots := s.slots.set s.depth retAddr
        depth := s.depth + 1
        length_slots := List.length_set.trans s.length_slots
        depth_le := Nat.lt_of_not_le h }

theorem top_lt (s : ShadowStack addr) (h : s.depth ≠ 0) : s.depth - 1 < s.slots.length := by
  have hle := s.depth_le
  rw [s.length_slots]
  lia

def pop (s : ShadowStack addr) : Option (addr × ShadowStack addr) :=
  if h : s.depth = 0 then none
  else
    some (s.slots.get ⟨s.depth - 1, s.top_lt h⟩,
      { s with depth := s.depth - 1, depth_le := Nat.le_trans (Nat.sub_le _ _) s.depth_le })

/-- `assert_depth_ok::<D>()` compiles. -/
def assertDepthOk (d : Nat) : Bool :=
  decide (d ≤ dMax)

/-!
## The stack that it is
-/

/-- The return addresses of the calls under way, innermost first. -/
def live (s : ShadowStack addr) : List addr :=
  (s.slots.take s.depth).reverse

theorem length_live (s : ShadowStack addr) : s.live.length = s.depth := by
  have hle := s.depth_le
  rw [live, List.length_reverse, List.length_take, s.length_slots]
  lia

theorem depth_of_live {s t : ShadowStack addr} (h : s.live = t.live) : s.depth = t.depth := by
  rw [← length_live, h, length_live]

theorem push_of_full {s : ShadowStack addr} (h : dMax ≤ s.depth) (retAddr : addr) :
    s.push retAddr = none :=
  dif_pos h

theorem push_of_room {s : ShadowStack addr} (h : s.depth < dMax) (retAddr : addr) :
    exists s', s.push retAddr = some s' ∧ s'.live = retAddr :: s.live ∧ s'.depth = s.depth + 1 := by
  refine ⟨_, dif_neg (Nat.not_le.mpr h), ?_, rfl⟩
  have hlt : s.depth < s.slots.length := by
    rw [s.length_slots]
    exact h
  show ((s.slots.set s.depth retAddr).take (s.depth + 1)).reverse = _
  rw [List.take_add_one, List.take_set_of_le (Nat.le_refl _), List.getElem?_set_self hlt,
    Option.toList_some, List.reverse_append]
  rfl

theorem pop_of_live {s : ShadowStack addr} {retAddr : addr} {rest : List addr}
    (h : s.live = retAddr :: rest) :
    exists s', s.pop = some (retAddr, s') ∧ s'.live = rest ∧ s'.depth + 1 = s.depth := by
  have hdepth : s.depth = rest.length + 1 := by
    rw [← length_live, h]
    rfl
  have hne : s.depth ≠ 0 := by
    rw [hdepth]
    exact Nat.succ_ne_zero _
  have htop : s.live = s.slots.get ⟨s.depth - 1, s.top_lt hne⟩ ::
      (s.slots.take (s.depth - 1)).reverse := by
    have htake := List.take_succ_eq_append_getElem (s.top_lt hne)
    rw [Nat.sub_one_add_one hne] at htake
    rw [live, htake, List.reverse_append]
    rfl
  have hpop : s.pop = some (s.slots.get ⟨s.depth - 1, s.top_lt hne⟩, _) := dif_neg hne
  rw [htop, List.cons.injEq] at h
  rw [h.left] at hpop
  exact ⟨_, hpop, h.right, Nat.sub_one_add_one hne⟩

end ShadowStack

/-!
## Calls
-/

/-- The calls of a function in order: to where each returns, the calls that it makes
itself, and those after it. -/
inductive Calls (addr : Type) where
  | done
  | call (retAddr : addr) (inner rest : Calls addr)

/-- How many calls are under way at once. -/
def Calls.height : Calls addr -> Nat
  | .done => 0
  | .call _ inner rest => max (inner.height + 1) rest.height

/-- Why a guarded call stops the program. -/
inductive StackFault where
  | tooDeep
  | nothingPushed
  | wrongAddress
deriving DecidableEq, Repr

/-- Each call pushes where it returns to; each return compares with what it pops. -/
def Calls.guarded [DecidableEq addr] :
    Calls addr -> ShadowStack addr -> Except StackFault (ShadowStack addr)
  | .done, s => .ok s
  | .call retAddr inner rest, s =>
      match s.push retAddr with
      | none => .error .tooDeep
      | some s =>
          match guarded inner s with
          | .error fault => .error fault
          | .ok s =>
              match s.pop with
              | none => .error .nothingPushed
              | some (popped, s) =>
                  if popped = retAddr then guarded rest s else .error .wrongAddress

section Guard

variable {addr : Type} [DecidableEq addr]

/-- The guard of one call, between those that it makes and those after it. -/
theorem guarded_call {retAddr : addr} {inner : Calls addr} (rest : Calls addr)
    {s t u : ShadowStack addr}
    (hpush : s.push retAddr = some t) (hlive : t.live = retAddr :: s.live)
    (hinner : inner.guarded t = .ok u) (hkept : u.live = t.live) :
    exists v, (Calls.call retAddr inner rest).guarded s = rest.guarded v ∧ v.live = s.live := by
  obtain ⟨v, hpop, hv, _⟩ := ShadowStack.pop_of_live (hkept.trans hlive)
  refine ⟨v, ?_, hv⟩
  simp only [Calls.guarded, hpush, hinner, hpop, if_pos]

theorem guarded_of_fits (calls : Calls addr) (s : ShadowStack addr)
    (h : s.depth + calls.height ≤ dMax) :
    exists s', calls.guarded s = .ok s' ∧ s'.live = s.live := by
  induction calls generalizing s with
  | done => exact ⟨s, rfl, rfl⟩
  | call retAddr inner rest ihInner ihRest =>
      have hheight : (Calls.call retAddr inner rest).height =
          max (inner.height + 1) rest.height := rfl
      rw [hheight] at h
      obtain ⟨t, hpush, hlive, hdepth⟩ :=
        ShadowStack.push_of_room (s := s) (by lia) retAddr
      obtain ⟨u, hinner, hkept⟩ := ihInner t (by lia)
      obtain ⟨v, hcall, hv⟩ := guarded_call rest hpush hlive hinner hkept
      obtain ⟨s', hrest, hs'⟩ := ihRest v (by rw [ShadowStack.depth_of_live hv]; lia)
      exact ⟨s', hcall.trans hrest, hs'.trans hv⟩

theorem guarded_of_tooDeep (calls : Calls addr) (s : ShadowStack addr)
    (h : dMax < s.depth + calls.height) : calls.guarded s = .error .tooDeep := by
  induction calls generalizing s with
  | done => exact absurd s.depth_le (Nat.not_le.mpr h)
  | call retAddr inner rest ihInner ihRest =>
      have hheight : (Calls.call retAddr inner rest).height =
          max (inner.height + 1) rest.height := rfl
      rw [hheight] at h
      by_cases hroom : s.depth < dMax
      · obtain ⟨t, hpush, hlive, hdepth⟩ := ShadowStack.push_of_room hroom retAddr
        by_cases hfits : t.depth + inner.height ≤ dMax
        · obtain ⟨u, hinner, hkept⟩ := guarded_of_fits inner t hfits
          obtain ⟨v, hcall, hv⟩ := guarded_call rest hpush hlive hinner hkept
          rw [hcall]
          exact ihRest v (by rw [ShadowStack.depth_of_live hv]; lia)
        · have hinner := ihInner t (Nat.not_le.mp hfits)
          simp only [Calls.guarded, hpush, hinner]
      · simp only [Calls.guarded, ShadowStack.push_of_full (Nat.not_lt.mp hroom)]

/-- However the calls of a program nest, the guard stops it exactly when more of them are
under way at once than there is room for, and for no other reason: every return finds the
address of its own call.  Otherwise the stack is left as it was, and a program whose depth
the assertion accepts is never stopped. -/
theorem guarded_iff_fits (calls : Calls addr) (s : ShadowStack addr) (zero : addr) :
    ((exists s', calls.guarded s = .ok s') ↔ s.depth + calls.height ≤ dMax) ∧
    (forall s', calls.guarded s = .ok s' -> s'.live = s.live) ∧
    (forall fault, calls.guarded s = .error fault -> fault = .tooDeep) ∧
    (forall d, ShadowStack.assertDepthOk d = true -> calls.height ≤ d ->
      exists s', calls.guarded (ShadowStack.new zero) = .ok s') := by
  refine ⟨?_, ?_, ?_, ?_⟩
  · constructor
    · rintro ⟨s', hok⟩
      refine Nat.not_lt.mp fun hdeep => ?_
      rw [guarded_of_tooDeep calls s hdeep] at hok
      cases hok
    · intro hfits
      obtain ⟨s', hok, _⟩ := guarded_of_fits calls s hfits
      exact ⟨s', hok⟩
  · intro s' hok
    by_cases hfits : s.depth + calls.height ≤ dMax
    · obtain ⟨t, ht, hlive⟩ := guarded_of_fits calls s hfits
      rw [hok, Except.ok.injEq] at ht
      exact ht ▸ hlive
    · rw [guarded_of_tooDeep calls s (Nat.not_le.mp hfits)] at hok
      cases hok
  · intro fault herror
    by_cases hfits : s.depth + calls.height ≤ dMax
    · obtain ⟨t, ht, _⟩ := guarded_of_fits calls s hfits
      rw [ht] at herror
      cases herror
    · rw [guarded_of_tooDeep calls s (Nat.not_le.mp hfits), Except.error.injEq] at herror
      exact herror.symm
  · intro d hd hheight
    have hfits : (ShadowStack.new zero).depth + calls.height ≤ dMax := by
      have hle := of_decide_eq_true hd
      show 0 + calls.height ≤ dMax
      lia
    obtain ⟨s', hok, _⟩ := guarded_of_fits calls (ShadowStack.new zero) hfits
    exact ⟨s', hok⟩

end Guard

end Scheduler
end HolyRust
