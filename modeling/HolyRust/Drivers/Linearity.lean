import HolyRust.Drivers.RegistryIntegrity

/-!
# Linearity of capabilities

Rust code holds `Cap<T>` tokens, the prompt holds what `cap_claim` gave it, and
both share one registry bit for a resource.  Operations of the two interleave in
any order; `cap_drop` looks at the bit first and clears it afterwards.  The bit
does not say whose it is, so `cap_drop` may clear it under a live token.
-/

namespace HolyRust
namespace Drivers

open Foundation
open Capabilities
open Compilation

/-- The registry with its holders: live tokens of each resource and the claims of
the prompt.  `dropping` is set between the two accesses of a `cap_drop`. -/
structure Holdings where
  registry : Registry
  tokens : Nat -> Nat
  repl : Nat -> Bool
  dropping : Option Nat

inductive Holding where
  /-- `tokens::claim::<T>()`, with `T::RESOURCE_ID`. -/
  | claim (id : Nat)
  | dropCap (id : Nat)
  /-- A token that goes out of scope; there is no `Drop`. -/
  | forget (id : Nat)
  | capClaim (name : NameBuf)
  /-- The availability test of `cap_drop`. -/
  | capDrop (name : NameBuf)
  /-- The release that follows it. -/
  | capRelease

namespace Holdings

def start (r : Registry) : Holdings where
  registry := r
  tokens := fun _ => 0
  repl := fun _ => false
  dropping := none

def holders (s : Holdings) (id : Nat) : Nat := s.tokens id + if s.repl id then 1 else 0

/-- `claim`: a token if the bit was clear. -/
def claimToken (s : Holdings) (id : Nat) : Holdings :=
  { s with
    registry := (acquire s.registry id).2
    tokens := fun k =>
      if k = id ∧ (acquire s.registry id).1 = true then s.tokens k + 1 else s.tokens k }

def loseToken (s : Holdings) (id : Nat) : Holdings :=
  { s with tokens := fun k => if k = id then s.tokens k - 1 else s.tokens k }

def dropToken (s : Holdings) (id : Nat) : Holdings :=
  { s.loseToken id with registry := release s.registry id }

/-- `do_claim` on a known resource. -/
def claimAtPrompt (s : Holdings) (id : Nat) : Holdings :=
  { s with
    registry := (acquire s.registry id).2
    repl := fun k => if k = id ∧ (acquire s.registry id).1 = true then true else s.repl k }

/-- The release in `do_drop`. -/
def releaseAtPrompt (s : Holdings) (id : Nat) : Holdings :=
  { s with
    registry := release s.registry id
    repl := fun k => if k = id then false else s.repl k
    dropping := none }

/-- `none` where the operation cannot be next. -/
def step (s : Holdings) : Holding -> Option Holdings
  | .claim id => some (s.claimToken id)
  | .dropCap id => if s.tokens id = 0 then none else some (s.dropToken id)
  | .forget id => if s.tokens id = 0 then none else some (s.loseToken id)
  | .capClaim name =>
      match s.dropping, resolveName name.bytes with
      | some _, _ => none
      | none, none => some s
      | none, some id => some (s.claimAtPrompt id)
  | .capDrop name =>
      match s.dropping, resolveName name.bytes with
      | some _, _ => none
      | none, none => some s
      | none, some id =>
          if available s.registry id then some s else some { s with dropping := some id }
  | .capRelease => s.dropping.map s.releaseAtPrompt

/-- Everything that a step can do. -/
theorem step_cases {s s' : Holdings} {op : Holding} (h : s.step op = some s') :
    (exists id, op = .claim id ∧ s' = s.claimToken id) ∨
      (exists id, op = .dropCap id ∧ s.tokens id ≠ 0 ∧ s' = s.dropToken id) ∨
      (exists id, op = .forget id ∧ s.tokens id ≠ 0 ∧ s' = s.loseToken id) ∨
      (exists name id, op = .capClaim name ∧ resolveName name.bytes = some id ∧
        s' = s.claimAtPrompt id) ∨
      (exists name id, op = .capDrop name ∧ resolveName name.bytes = some id ∧
        s' = { s with dropping := some id }) ∨
      (exists id, op = .capRelease ∧ s.dropping = some id ∧ s' = s.releaseAtPrompt id) ∨
      s' = s := by
  unfold step at h
  split at h
  · rename_i id
    exact Or.inl ⟨id, rfl, (Option.some.inj h).symm⟩
  · rename_i id
    split at h
    · cases h
    · rename_i hlive
      exact Or.inr (Or.inl ⟨id, rfl, hlive, (Option.some.inj h).symm⟩)
  · rename_i id
    split at h
    · cases h
    · rename_i hlive
      exact Or.inr (Or.inr (Or.inl ⟨id, rfl, hlive, (Option.some.inj h).symm⟩))
  · rename_i name
    split at h
    · cases h
    · right; right; right; right; right; right
      exact (Option.some.inj h).symm
    · rename_i id _ hname
      right; right; right; left
      exact ⟨name, id, rfl, hname, (Option.some.inj h).symm⟩
  · rename_i name
    split at h
    · cases h
    · right; right; right; right; right; right
      exact (Option.some.inj h).symm
    · rename_i id _ hname
      split at h
      · right; right; right; right; right; right
        exact (Option.some.inj h).symm
      · right; right; right; right; left
        exact ⟨name, id, rfl, hname, (Option.some.inj h).symm⟩
  · obtain ⟨id, hdropping, heq⟩ := Option.map_eq_some_iff.mp h
    right; right; right; right; right; left
    exact ⟨id, rfl, hdropping, heq.symm⟩

/-- Any interleaving, from a state without holders. -/
abbrev Interleaving (r : Registry) : List (Transition Holdings Holding) -> Holdings -> Prop :=
  Trail (fun s op s' => s.step op = some s') (start r)

/-!
## Linear states
-/

structure Linear (s : Holdings) : Prop where
  one : forall id, id < maxResources -> s.holders id ≤ 1
  marked : forall id, id < maxResources -> 0 < s.holders id -> s.registry.bit id = true

theorem linear_start (r : Registry) : Linear (start r) where
  one := fun _ _ => Nat.zero_le 1
  marked := fun _ _ h => absurd h (Nat.lt_irrefl 0)

theorem get?_beyond {r : Registry} {id : Nat} (h : ¬ id < maxResources) :
    r.get? (id / 32) = none := by
  unfold Registry.get?
  apply dif_neg
  unfold maxResources at h
  unfold registryWords
  lia

theorem acquire_won {r : Registry} {id : Nat} (h : (acquire r id).1 = true) :
    id < maxResources ∧ r.bit id = false := by
  unfold acquire at h
  by_cases hid : id < maxResources
  · rw [get?_of_lt hid] at h
    rw [bit_of_word hid rfl]
    exact ⟨hid, by simpa [and_one_shiftLeft_eq_zero (Nat.mod_lt id (by decide : 0 < 32))] using h⟩
  · rw [get?_beyond hid] at h
    cases h

/-- The bits after an acquire of any `id`, valid or not. -/
theorem bit_acquired (r : Registry) (id : Nat) {k : Nat} (hk : k < maxResources) :
    (acquire r id).2.bit k = (r.bit k || decide (k = id)) := by
  by_cases hid : id < maxResources
  · exact bit_acquire hid hk
  · have hne : k ≠ id := fun heq => hid (heq ▸ hk)
    unfold acquire
    rw [get?_beyond hid, decide_eq_false hne, Bool.or_false]

theorem bit_released (r : Registry) (id : Nat) {k : Nat} (hk : k < maxResources) :
    (release r id).bit k = (r.bit k && decide (k ≠ id)) := by
  by_cases hid : id < maxResources
  · exact bit_release hid hk
  · have hne : k ≠ id := fun heq => hid (heq ▸ hk)
    unfold release
    rw [get?_beyond hid, decide_eq_true hne, Bool.and_true]

/-- A resource that is won had no holder. -/
theorem Linear.free {s : Holdings} (h : Linear s) {id : Nat}
    (hwon : (acquire s.registry id).1 = true) : s.holders id = 0 := by
  obtain ⟨hid, hclear⟩ := acquire_won hwon
  apply Nat.eq_zero_of_not_pos
  intro hpos
  have hset := h.marked id hid hpos
  rw [hclear] at hset
  cases hset

theorem linear_acquire {s s' : Holdings} {id : Nat} (h : Linear s)
    (hregistry : s'.registry = (acquire s.registry id).2)
    (hholders : forall k, s'.holders k =
      if k = id ∧ (acquire s.registry id).1 = true then s.holders k + 1 else s.holders k) :
    Linear s' := by
  constructor
  · intro k hk
    rw [hholders k]
    split
    · rename_i hwon
      rw [hwon.left, h.free hwon.right]
    · exact h.one k hk
  · intro k hk hpos
    rw [hregistry, bit_acquired _ _ hk, Bool.or_eq_true]
    rw [hholders k] at hpos
    split at hpos
    · rename_i hwon
      exact Or.inr (decide_eq_true hwon.left)
    · exact Or.inl (h.marked k hk hpos)

theorem linear_release {s s' : Holdings} {id : Nat} (h : Linear s)
    (hregistry : s'.registry = release s.registry id)
    (hholders : forall k, s'.holders k ≤ s.holders k)
    (hnone : id < maxResources -> s'.holders id = 0) : Linear s' := by
  constructor
  · intro k hk
    exact (hholders k).trans (h.one k hk)
  · intro k hk hpos
    have hne : k ≠ id := by
      rintro rfl
      rw [hnone hk] at hpos
      exact Nat.lt_irrefl 0 hpos
    rw [hregistry, bit_released _ _ hk, decide_eq_true hne, Bool.and_true]
    exact h.marked k hk (Nat.lt_of_lt_of_le hpos (hholders k))

/-!
## Holders
-/

theorem holders_claimToken (s : Holdings) (id k : Nat) :
    (s.claimToken id).holders k =
      if k = id ∧ (acquire s.registry id).1 = true then s.holders k + 1 else s.holders k := by
  unfold holders claimToken
  simp only
  split <;> lia

theorem holders_loseToken {s : Holdings} {id : Nat} (hlive : s.tokens id ≠ 0) (k : Nat) :
    (s.loseToken id).holders k = if k = id then s.holders k - 1 else s.holders k := by
  unfold holders loseToken
  simp only
  by_cases hk : k = id
  · rw [if_pos hk, if_pos hk, hk]
    lia
  · rw [if_neg hk, if_neg hk]

/-- A token that is given up was the only holder. -/
theorem Linear.holders_lost {s : Holdings} (h : Linear s) {id : Nat} (hlive : s.tokens id ≠ 0)
    (hid : id < maxResources) : (s.loseToken id).holders id = 0 := by
  have hone := h.one id hid
  rw [holders_loseToken hlive, if_pos rfl]
  lia

theorem holders_loseToken_le {s : Holdings} {id : Nat} (hlive : s.tokens id ≠ 0) (k : Nat) :
    (s.loseToken id).holders k ≤ s.holders k := by
  rw [holders_loseToken hlive]
  split
  · exact Nat.sub_le _ _
  · exact Nat.le_refl _

/-- What the prompt wins it did not hold before. -/
theorem Linear.holders_claimAtPrompt {s : Holdings} (h : Linear s) (id k : Nat) :
    (s.claimAtPrompt id).holders k =
      if k = id ∧ (acquire s.registry id).1 = true then s.holders k + 1 else s.holders k := by
  by_cases hwon : k = id ∧ (acquire s.registry id).1 = true
  · have hfree := h.free hwon.right
    rw [← hwon.left] at hfree
    rw [if_pos hwon, hfree]
    unfold holders at hfree
    unfold holders claimAtPrompt
    simp only [if_pos hwon, if_true]
    lia
  · rw [if_neg hwon]
    unfold holders claimAtPrompt
    simp only [if_neg hwon]

theorem holders_releaseAtPrompt (s : Holdings) (id k : Nat) :
    (s.releaseAtPrompt id).holders k = if k = id then s.tokens k else s.holders k := by
  unfold holders releaseAtPrompt
  by_cases hk : k = id
  · simp [hk]
  · simp [hk]

/-!
## Steps
-/

/-- The resource whose bit an operation may change. -/
def touched (s : Holdings) : Holding -> Option Nat
  | .claim id => some id
  | .dropCap id => some id
  | .forget _ => none
  | .capClaim name => resolveName name.bytes
  | .capDrop _ => none
  | .capRelease => s.dropping

/-- The resource that an operation would acquire. -/
def wanted : Holding -> Option Nat
  | .claim id => some id
  | .capClaim name => resolveName name.bytes
  | _ => none

/-- What linearity asks of one step. -/
structure LinearStep (tr : Transition Holdings Holding) : Prop where
  linear : Linear tr.after
  acquires_free : forall id, wanted tr.label = some id ->
    (acquire tr.before.registry id).1 = true -> tr.before.holders id = 0
  own_bit : forall k, k < maxResources -> touched tr.before tr.label ≠ some k ->
    tr.after.registry.bit k = tr.before.registry.bit k

/-- A `cap_drop` clears no bit under a live token. -/
def SparesTokens (tr : Transition Holdings Holding) : Prop :=
  tr.label = .capRelease -> forall id, tr.before.dropping = some id -> tr.before.tokens id = 0

theorem linear_step {s s' : Holdings} {op : Holding} (h : Linear s) (hstep : s.step op = some s')
    (hspares : SparesTokens ⟨s, op, s'⟩) : Linear s' := by
  rcases step_cases hstep with ⟨id, rfl, rfl⟩ | ⟨id, rfl, hlive, rfl⟩ | ⟨id, rfl, hlive, rfl⟩ |
    ⟨name, id, rfl, hname, rfl⟩ | ⟨name, id, rfl, hname, rfl⟩ | ⟨id, rfl, hdropping, rfl⟩ | rfl
  · exact linear_acquire h rfl (holders_claimToken s id)
  · exact linear_release h rfl (holders_loseToken_le hlive) (h.holders_lost hlive)
  · constructor
    · intro k hk
      exact (holders_loseToken_le hlive k).trans (h.one k hk)
    · intro k hk hpos
      exact h.marked k hk (Nat.lt_of_lt_of_le hpos (holders_loseToken_le hlive k))
  · exact linear_acquire h rfl (h.holders_claimAtPrompt id)
  · exact ⟨h.one, h.marked⟩
  · have hnone := hspares rfl id hdropping
    apply linear_release h rfl
    · intro k
      rw [holders_releaseAtPrompt]
      split
      · exact Nat.le_add_right _ _
      · exact Nat.le_refl _
    · intro _
      rw [holders_releaseAtPrompt, if_pos rfl]
      exact hnone
  · exact h

/-- No step changes the bit of another resource. -/
theorem step_own_bit {s s' : Holdings} {op : Holding} (hstep : s.step op = some s') {k : Nat}
    (hk : k < maxResources) (hother : touched s op ≠ some k) :
    s'.registry.bit k = s.registry.bit k := by
  have hacquired : forall id, k ≠ id -> (acquire s.registry id).2.bit k = s.registry.bit k := by
    intro id hne
    rw [bit_acquired _ _ hk, decide_eq_false hne, Bool.or_false]
  have hreleased : forall id, k ≠ id -> (release s.registry id).bit k = s.registry.bit k := by
    intro id hne
    rw [bit_released _ _ hk, decide_eq_true hne, Bool.and_true]
  rcases step_cases hstep with ⟨id, rfl, rfl⟩ | ⟨id, rfl, hlive, rfl⟩ | ⟨id, rfl, hlive, rfl⟩ |
    ⟨name, id, rfl, hname, rfl⟩ | ⟨name, id, rfl, hname, rfl⟩ | ⟨id, rfl, hdropping, rfl⟩ | rfl
  · exact hacquired id fun heq => hother (by rw [heq]; rfl)
  · exact hreleased id fun heq => hother (by rw [heq]; rfl)
  · rfl
  · exact hacquired id fun heq => hother (by rw [heq]; exact hname)
  · rfl
  · exact hreleased id fun heq => hother (by rw [heq]; exact hdropping)
  · rfl

/-!
## Whole runs
-/

/-- The prompt only ever drops resources that have a name. -/
def DroppingNamed (s : Holdings) : Prop :=
  forall id, s.dropping = some id -> id < maxResources

theorem droppingNamed_step {s s' : Holdings} {op : Holding} (h : DroppingNamed s)
    (hstep : s.step op = some s') : DroppingNamed s' := by
  intro k hk
  rcases step_cases hstep with ⟨id, rfl, rfl⟩ | ⟨id, rfl, _, rfl⟩ | ⟨id, rfl, _, rfl⟩ |
    ⟨name, id, rfl, _, rfl⟩ | ⟨name, id, rfl, hname, rfl⟩ | ⟨id, rfl, _, rfl⟩ | rfl
  · exact h k hk
  · exact h k hk
  · exact h k hk
  · exact h k hk
  · rw [← Option.some.inj hk]
    exact resolveName_lt hname
  · cases hk
  · exact h k hk

/-- A release under a live token leaves a holder without its bit. -/
theorem not_linear_release {s s' : Holdings} {id : Nat} (hid : id < maxResources)
    (hdropping : s.dropping = some id) (hlive : s.tokens id ≠ 0)
    (hstep : s.step .capRelease = some s') : ¬Linear s' := by
  intro hlinear
  have hs' : s' = s.releaseAtPrompt id := by
    unfold step at hstep
    rw [hdropping] at hstep
    exact (Option.some.inj hstep).symm
  have hholders : s'.holders id = s.tokens id := by
    rw [hs', holders_releaseAtPrompt, if_pos rfl]
  have hbit := hlinear.marked id hid (by lia)
  rw [hs'] at hbit
  have hclear : (release s.registry id).bit id = false := by
    rw [bit_released _ _ hid]
    simp
  exact Bool.false_ne_true (hclear.symm.trans hbit)

/-- Every step of an interleaving is linear exactly when no `cap_drop` clears the
bit under a live token. -/
theorem linearStep_iff {r : Registry} {past : List (Transition Holdings Holding)} {s : Holdings}
    (hrun : Interleaving r past s) :
    (forall tr, tr ∈ past -> LinearStep tr) ↔ forall tr, tr ∈ past -> SparesTokens tr := by
  constructor
  · intro hlinear tr htr hrelease id hdropping
    have hsteps := Trail.forall_mem DroppingNamed
      (fun tr => tr.before.step tr.label = some tr.after ∧ DroppingNamed tr.before)
      (fun _ => True) (fun id hid => (by cases hid))
      (fun _ _ _ hs hstep _ => ⟨⟨hstep, hs⟩, droppingNamed_step hs hstep⟩) hrun
      (fun _ _ => trivial)
    obtain ⟨hstep, hnamed⟩ := hsteps.left tr htr
    apply Classical.byContradiction
    intro hlive
    rw [hrelease] at hstep
    exact not_linear_release (hnamed id hdropping) hdropping hlive hstep (hlinear tr htr).linear
  · intro hspares
    have hlinear := Trail.forall_mem Linear LinearStep SparesTokens (linear_start r)
      (fun s op s' hs hstep hspares =>
        ⟨{ linear := linear_step hs hstep hspares
           acquires_free := fun _ _ hwon => hs.free hwon
           own_bit := fun _ hk hother => step_own_bit hstep hk hother },
          linear_step hs hstep hspares⟩) hrun hspares
    exact hlinear.left

/-- What linearity asks of every interleaving. -/
def CapabilityLinearity (r : Registry) : Prop :=
  forall past s, Interleaving r past s -> forall tr, tr ∈ past -> LinearStep tr

/-- GPIOA, as the prompt names it. -/
def gpioA : NameBuf where
  bytes := ascii "GPIOA"
  length_le := by decide

theorem step_capClaim {s : Holdings} {name : NameBuf} {id : Nat} (hidle : s.dropping = none)
    (hname : resolveName name.bytes = some id) :
    s.step (.capClaim name) = some (s.claimAtPrompt id) := by
  simp only [step, hidle, hname]

theorem step_capDrop {s : Holdings} {name : NameBuf} {id : Nat} (hidle : s.dropping = none)
    (hname : resolveName name.bytes = some id) (hbusy : available s.registry id = false) :
    s.step (.capDrop name) = some { s with dropping := some id } := by
  simp [step, hidle, hname, hbusy]

/-- The two accesses of a `cap_drop` that finds the bit set. -/
theorem interleaving_drop {r : Registry} {past : List (Transition Holdings Holding)}
    {s : Holdings} (hrun : Interleaving r past s) {name : NameBuf} {id : Nat}
    (hidle : s.dropping = none) (hname : resolveName name.bytes = some id)
    (hbusy : available s.registry id = false) :
    Interleaving r
      (⟨{ s with dropping := some id }, .capRelease, s.releaseAtPrompt id⟩ ::
        ⟨s, .capDrop name, { s with dropping := some id }⟩ :: past) (s.releaseAtPrompt id) :=
  Trail.snoc (Trail.snoc hrun (step_capDrop hidle hname hbusy)) rfl

/-- On the registry they do what a `cap_drop` line does. -/
theorem registry_releaseAtPrompt {s : Holdings} {name : NameBuf} {id : Nat}
    (hname : resolveName name.bytes = some id) (hbusy : available s.registry id = false) :
    (s.releaseAtPrompt id).registry = dropped name s.registry := by
  unfold dropped
  rw [hname]
  simp only [hbusy]
  rfl

theorem registry_claimAtPrompt {s : Holdings} {name : NameBuf} {id : Nat}
    (hname : resolveName name.bytes = some id) :
    (s.claimAtPrompt id).registry = claimed name s.registry := by
  unfold claimed
  rw [hname]
  rfl

/-- The prompt claims a resource and drops it, and Rust code claims it. -/
theorem linearStep_handOver : exists past s, Interleaving (fun _ => 0#32) past s ∧
    s.tokens 0 = 1 ∧ forall tr, tr ∈ past -> LinearStep tr := by
  have hname : resolveName gpioA.bytes = some 0 := by decide
  have hclaimed := Trail.snoc (Trail.nil : Interleaving (fun _ => 0#32) [] _)
    (step_capClaim rfl hname)
  have hdropped := interleaving_drop hclaimed rfl hname (by decide +kernel)
  have hrun := Trail.snoc hdropped (i := .claim 0) rfl
  refine ⟨_, _, hrun, by decide +kernel, (linearStep_iff hrun).mpr ?_⟩
  intro tr htr hrelease id hdropping
  simp only [List.mem_cons, List.not_mem_nil, or_false] at htr
  rcases htr with rfl | rfl | rfl | rfl
  · cases hrelease
  · rfl
  · cases hrelease
  · cases hrelease

/-- A token of GPIOA is live when the prompt drops GPIOA and claims it. -/
theorem not_capabilityLinearity_drop : ¬CapabilityLinearity fun _ => 0#32 := by
  intro hlinear
  have hname : resolveName gpioA.bytes = some 0 := by decide
  have hclaimed := Trail.snoc (Trail.nil : Interleaving (fun _ => 0#32) [] _)
    (i := .claim 0) rfl
  have hdropped := interleaving_drop hclaimed rfl hname (by decide +kernel)
  have hrun := Trail.snoc hdropped (step_capClaim rfl hname)
  have hone := (hlinear _ _ hrun _ List.mem_cons_self).linear.one 0 (by decide)
  revert hone
  decide +kernel

end Holdings

end Drivers
end HolyRust
