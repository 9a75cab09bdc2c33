import HolyRust.Drivers.Linearity

/-!
# Counting SuperUser grants

`grant_superuser` claims bit 31 and counts the grant.  The bit can also be set by
`claim::<SuperUserCap>` and by the line `cap_claim SUPERUSER;`, and those count
nothing.
-/

namespace HolyRust
namespace Drivers

open Foundation
open Capabilities
open Compilation

/-- The holders of capabilities and `SUPERUSER_AUDIT_COUNT`. -/
structure Granting where
  holdings : Holdings
  count : Word

inductive GrantOp where
  | grantSuperuser
  | other (op : Holding)

namespace Granting

def start (r : Registry) : Granting where
  holdings := .start r
  count := 0#32

def grantSuperuser (s : Granting) : Granting where
  holdings := s.holdings.claimToken CapId.superUser.index
  count :=
    if (acquire s.holdings.registry CapId.superUser.index).1 then s.count + 1#32 else s.count

def step (s : Granting) : GrantOp -> Option Granting
  | .grantSuperuser => some s.grantSuperuser
  | .other op => (s.holdings.step op).map fun holdings => { s with holdings := holdings }

/-- Any sequence of calls and lines, from a registry without holders. -/
abbrev Run (r : Registry) : List (Transition Granting GrantOp) -> Granting -> Prop :=
  Trail (fun s op s' => s.step op = some s') (start r)

/-- The SuperUser bit. -/
def superuser (s : Granting) : Bool := s.holdings.registry.bit CapId.superUser.index

/-- The bit went from clear to set. -/
def raises (tr : Transition Granting GrantOp) : Bool := !tr.before.superuser && tr.after.superuser

def raised (past : List (Transition Granting GrantOp)) : Nat := past.countP raises

/-- The counter after a run. -/
def countAfter : List (Transition Granting GrantOp) -> Word
  | [] => 0#32
  | tr :: _ => tr.after.count

/-- The counter is right after every part of the run. -/
def GrantsCounted (past : List (Transition Granting GrantOp)) : Prop :=
  forall before, before <:+ past -> countAfter before = BitVec.ofNat 32 (raised before)

/-- Another operation than `grant_superuser` acquires SuperUser while it is free. -/
def GrantsUncounted (tr : Transition Granting GrantOp) : Prop :=
  tr.before.superuser = false ∧
    exists op, tr.label = .other op ∧ Holdings.wanted op = some CapId.superUser.index

/-!
## Steps
-/

theorem acquire_fst {r : Registry} {id : Nat} (hid : id < maxResources) :
    (acquire r id).1 = !r.bit id := by
  unfold acquire
  rw [get?_of_lt hid, bit_of_word hid rfl]
  exact and_one_shiftLeft_eq_zero (Nat.mod_lt _ (by decide))

theorem superuser_grantSuperuser (s : Granting) : s.grantSuperuser.superuser = true := by
  show (acquire s.holdings.registry _).2.bit _ = true
  rw [bit_acquire (by decide) (by decide)]
  simp

/-- A grant counts exactly when it raises the bit. -/
theorem count_grantSuperuser (s : Granting) :
    s.grantSuperuser.count = if s.superuser then s.count else s.count + 1#32 := by
  unfold grantSuperuser
  rw [acquire_fst (by decide)]
  show (if (!s.superuser) = true then s.count + 1#32 else s.count) = _
  cases s.superuser <;> rfl

/-- An operation on the bit that does not want it only clears it. -/
theorem superuser_of_unwanted {s s' : Holdings} {op : Holding} (hstep : s.step op = some s')
    (hother : Holdings.wanted op ≠ some CapId.superUser.index)
    (hclear : s.registry.bit CapId.superUser.index = false) :
    s'.registry.bit CapId.superUser.index = false := by
  have hreleased : forall id, (release s.registry id).bit CapId.superUser.index = false := by
    intro id
    rw [Holdings.bit_released _ _ (by decide), hclear, Bool.false_and]
  have hacquired : forall id, some id ≠ some CapId.superUser.index ->
      (acquire s.registry id).2.bit CapId.superUser.index = false := by
    intro id hne
    rw [Holdings.bit_acquired _ _ (by decide), hclear, Bool.false_or]
    exact decide_eq_false fun heq => hne (by rw [heq])
  rcases Holdings.step_cases hstep with ⟨id, rfl, rfl⟩ | ⟨id, rfl, hlive, rfl⟩ |
    ⟨id, rfl, hlive, rfl⟩ | ⟨name, id, rfl, hname, rfl⟩ | ⟨name, id, rfl, hname, rfl⟩ |
    ⟨id, rfl, hdropping, rfl⟩ | rfl
  · exact hacquired id hother
  · exact hreleased id
  · exact hclear
  · exact hacquired id fun heq => hother (hname.trans heq)
  · exact hclear
  · exact hreleased id
  · exact hclear

/-- One that wants it sets it. -/
theorem superuser_of_wanted {s s' : Holdings} {op : Holding} (hstep : s.step op = some s')
    (hwanted : Holdings.wanted op = some CapId.superUser.index) :
    s'.registry.bit CapId.superUser.index = true := by
  have hacquired : (acquire s.registry CapId.superUser.index).2.bit CapId.superUser.index =
      true := by
    rw [bit_acquire (by decide) (by decide)]
    simp
  cases op with
  | claim id =>
      cases hwanted
      cases hstep
      exact hacquired
  | capClaim name =>
      unfold Holdings.wanted at hwanted
      simp only [Holdings.step, hwanted] at hstep
      split at hstep
      · cases hstep
      · rename_i hname
        cases hname
      · rename_i id _ hname
        cases hname
        cases hstep
        exact hacquired
  | dropCap id => cases hwanted
  | forget id => cases hwanted
  | capDrop name => cases hwanted
  | capRelease => cases hwanted

theorem step_other {s s' : Granting} {op : Holding} (h : s.step (.other op) = some s') :
    s.holdings.step op = some s'.holdings ∧ s'.count = s.count := by
  obtain ⟨holdings, hstep, rfl⟩ := Option.map_eq_some_iff.mp h
  exact ⟨hstep, rfl⟩

/-- The counter keeps up with one step unless the step is an uncounted grant. -/
theorem count_step {s s' : Granting} {op : GrantOp} (hstep : s.step op = some s') :
    s'.count = s.count + (if raises ⟨s, op, s'⟩ then 1#32 else 0#32) ↔
      ¬ GrantsUncounted ⟨s, op, s'⟩ := by
  cases op with
  | grantSuperuser =>
      cases hstep
      refine iff_of_true ?_ ?_
      · unfold raises
        rw [count_grantSuperuser, superuser_grantSuperuser, Bool.and_true]
        cases s.superuser with
        | false => rfl
        | true => exact (BitVec.add_zero _).symm
      · rintro ⟨_, op, hlabel, _⟩
        cases hlabel
  | other op =>
      obtain ⟨hinner, hcount⟩ := step_other hstep
      rw [hcount]
      by_cases hgrant : GrantsUncounted ⟨s, .other op, s'⟩
      · obtain ⟨hclear, op', hlabel, hwanted⟩ := id hgrant
        cases hlabel
        have hset : s'.superuser = true := superuser_of_wanted hinner hwanted
        have hraises : raises ⟨s, .other op, s'⟩ = true := by
          unfold raises
          rw [hclear, hset]
          rfl
        refine iff_of_false ?_ (fun hnot => hnot hgrant)
        rw [hraises, if_pos rfl]
        intro heq
        have hone : 1#32 = 0#32 := BitVec.self_eq_add_right.mp heq
        cases hone
      · have hraises : raises ⟨s, .other op, s'⟩ = false := by
          unfold raises
          cases hbit : s.superuser with
          | true => rfl
          | false =>
              have hclear : s'.superuser = false := by
                apply superuser_of_unwanted hinner _ hbit
                intro hwanted
                exact hgrant ⟨hbit, op, rfl, hwanted⟩
              rw [hclear]
              rfl
        refine iff_of_true ?_ hgrant
        rw [hraises, if_neg Bool.false_ne_true, BitVec.add_zero]

/-!
## Whole runs
-/

theorem countAfter_eq {r : Registry} {past : List (Transition Granting GrantOp)} {s : Granting}
    (hrun : Run r past s) : countAfter past = s.count := by
  cases hrun with
  | nil => rfl
  | snoc _ _ => rfl

theorem raised_cons (tr : Transition Granting GrantOp)
    (past : List (Transition Granting GrantOp)) :
    BitVec.ofNat 32 (raised (tr :: past)) =
      BitVec.ofNat 32 (raised past) + if raises tr then 1#32 else 0#32 := by
  unfold raised
  rw [List.countP_cons]
  split
  · rw [BitVec.ofNat_add]
  · rw [Nat.add_zero, BitVec.add_zero]

/-- The counter is right throughout a run exactly when every grant of the run that
raises the bit goes through `grant_superuser`. -/
theorem grantsCounted_iff {r : Registry} {past : List (Transition Granting GrantOp)}
    {s : Granting} (hrun : Run r past s) :
    GrantsCounted past ↔ forall tr, tr ∈ past -> ¬ GrantsUncounted tr := by
  induction hrun with
  | nil =>
      refine iff_of_true ?_ (fun tr htr => (by cases htr))
      intro before hbefore
      rw [List.suffix_nil.mp hbefore]
      rfl
  | @snoc past s s' op hrun hstep ih =>
      have hcount := count_step hstep
      have hbefore := countAfter_eq hrun
      constructor
      · intro hcounted tr htr
        have hpast := ih.mp fun before hsuffix =>
          hcounted before (hsuffix.trans (List.suffix_cons _ _))
        rcases List.mem_cons.mp htr with rfl | hold
        · have hlast := hcounted _ List.suffix_rfl
          have hprevious := hcounted past (List.suffix_cons _ _)
          rw [raised_cons, ← hprevious, hbefore] at hlast
          exact hcount.mp hlast
        · exact hpast tr hold
      · intro hall
        have hpast := ih.mpr fun tr htr => hall tr (List.mem_cons_of_mem _ htr)
        intro before hsuffix
        rcases List.suffix_cons_iff.mp hsuffix with rfl | hold
        · have hprevious := hpast past List.suffix_rfl
          rw [raised_cons, ← hprevious, hbefore]
          exact hcount.mpr (hall _ List.mem_cons_self)
        · exact hpast before hold

/-- The name of SuperUser at the prompt. -/
def superuserName : NameBuf where
  bytes := ascii "SUPERUSER"
  length_le := by decide

/-- A grant, and a claim at the prompt that comes too late. -/
theorem grantsCounted_busy : exists past s, Run (fun _ => 0#32) past s ∧ s.count = 1#32 ∧
    GrantsCounted past := by
  have hgrant := Trail.snoc (Trail.nil : Run (fun _ => 0#32) [] _) (i := .grantSuperuser) rfl
  have hrun := Trail.snoc hgrant (i := .other (.capClaim superuserName)) rfl
  refine ⟨_, _, hrun, by decide +kernel, (grantsCounted_iff hrun).mpr ?_⟩
  intro tr htr
  simp only [List.mem_cons, List.not_mem_nil, or_false] at htr
  rcases htr with rfl | rfl
  · rintro ⟨hclear, _⟩
    revert hclear
    decide +kernel
  · rintro ⟨_, op, hlabel, _⟩
    cases hlabel

/-- `cap_claim SUPERUSER;` sets the bit and counts nothing. -/
theorem not_grantsCounted_prompt : ¬ forall past s,
    Run (fun _ => 0#32) past s -> GrantsCounted past := by
  intro hall
  have hrun := Trail.snoc (Trail.nil : Run (fun _ => 0#32) [] _)
    (i := .other (.capClaim superuserName)) rfl
  have hcount := hall _ _ hrun _ List.suffix_rfl
  revert hcount
  decide +kernel

end Granting

end Drivers
end HolyRust
