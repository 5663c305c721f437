import EntanglementRs.Soak.Counts

/-!
# The verdicts of the soak test

The lines that `soak_test.rs` prints once the client is disconnected, computed
from the statistics of the streams.
-/

namespace EntanglementRs.Soak

open Transition Ascending

inductive Verdict where
  | skip
  | pass
  | fail (missing : ℕ)
  | warn (reorder : ℕ)
  deriving DecidableEq, Repr

def Verdict.isFail : Verdict → Bool
  | .fail _ => true
  | _ => false

/-- `s - e` on `u64`, without overflow checks. -/
def u64Sub (s e : ℕ) : ℕ := if e ≤ s then s - e else 2 ^ 64 - (e - s)

def deliveredVerdict (st : StreamStats) : Verdict :=
  if st.sent = 0 then .skip
  else if st.echoes = st.sent then .pass
  else .fail (u64Sub st.sent st.echoes)

def orderVerdict (st : StreamStats) : Verdict :=
  if st.violations = 0 then .pass else .warn st.violations

structure Report where
  lines : List (String × Verdict)
  allPass : Bool
  deriving DecidableEq

def deliveredChecks : List (String × StreamIdx) :=
  [("SIMPLE RELIABLE DELIVERED", sRel), ("SIMPLE ORDERED DELIVERED", sOrd),
    ("FRAG RELIABLE DELIVERED", fRel), ("FRAG ORDERED DELIVERED", fOrd)]

def orderChecks : List (String × StreamIdx) :=
  [("SIMPLE ORDERED ORDER", sOrd), ("FRAG ORDERED ORDER", fOrd)]

/-- The loop over the `DELIVERED` lines; only a `FAIL` clears `all_pass`. -/
def checkDelivered (stats : Stats) (r : Report) : List (String × StreamIdx) → Report
  | [] => r
  | (label, idx) :: checks =>
      let verdict := deliveredVerdict (stats idx)
      checkDelivered stats
        { lines := r.lines ++ [(label, verdict)]
          allPass := if verdict.isFail then false else r.allPass }
        checks

/-- The loop over the `ORDER` lines. -/
def checkOrder (stats : Stats) (r : Report) : List (String × StreamIdx) → Report
  | [] => r
  | (label, idx) :: checks =>
      checkOrder stats { r with lines := r.lines ++ [(label, orderVerdict (stats idx))] }
        checks

def verdicts (stats : Stats) : Report :=
  checkOrder stats (checkDelivered stats ⟨[], true⟩ deliveredChecks) orderChecks

/-- The verdict printed behind a label. -/
def Report.verdict? (r : Report) (label : String) : Option Verdict :=
  (r.lines.find? fun line => line.1 = label).map Prod.snd

/-! ## The two loops -/

variable {stats : Stats}

theorem checkDelivered_lines (checks : List (String × StreamIdx)) (r : Report) :
    (checkDelivered stats r checks).lines =
      r.lines ++ checks.map fun c => (c.1, deliveredVerdict (stats c.2)) := by
  induction checks generalizing r with
  | nil => simp [checkDelivered]
  | cons c checks ih => simp [checkDelivered, ih]

theorem checkDelivered_allPass (checks : List (String × StreamIdx)) (r : Report) :
    (checkDelivered stats r checks).allPass = true ↔
      r.allPass = true ∧
        ∀ c ∈ checks, (deliveredVerdict (stats c.2)).isFail = false := by
  induction checks generalizing r with
  | nil => simp [checkDelivered]
  | cons c checks ih =>
      rw [checkDelivered, ih]
      cases hfail : (deliveredVerdict (stats c.2)).isFail <;> simp [hfail]

theorem checkOrder_lines (checks : List (String × StreamIdx)) (r : Report) :
    (checkOrder stats r checks).lines =
      r.lines ++ checks.map fun c => (c.1, orderVerdict (stats c.2)) := by
  induction checks generalizing r with
  | nil => simp [checkOrder]
  | cons c checks ih => simp [checkOrder, ih]

theorem checkOrder_allPass (checks : List (String × StreamIdx)) (r : Report) :
    (checkOrder stats r checks).allPass = r.allPass := by
  induction checks generalizing r with
  | nil => rfl
  | cons c checks ih =>
      rw [checkOrder, ih]

/-- The run passes exactly when no `DELIVERED` line says `FAIL`. -/
theorem verdicts_allPass :
    (verdicts stats).allPass = true ↔
      ∀ c ∈ deliveredChecks, (deliveredVerdict (stats c.2)).isFail = false := by
  rw [verdicts, checkOrder_allPass, checkDelivered_allPass]
  simp

theorem verdicts_lines :
    (verdicts stats).lines =
      (deliveredChecks.map fun c => (c.1, deliveredVerdict (stats c.2))) ++
        orderChecks.map fun c => (c.1, orderVerdict (stats c.2)) := by
  rw [verdicts, checkOrder_lines, checkDelivered_lines]
  rfl

/-- Each label is printed once, so the verdict behind it is that of its stream. -/
theorem verdict?_delivered {label : String} {idx : StreamIdx}
    (hcheck : (label, idx) ∈ deliveredChecks) :
    (verdicts stats).verdict? label = some (deliveredVerdict (stats idx)) := by
  rw [Report.verdict?, verdicts_lines]
  simp only [deliveredChecks, List.mem_cons, Prod.mk.injEq, List.not_mem_nil,
    or_false] at hcheck
  rcases hcheck with ⟨rfl, rfl⟩ | ⟨rfl, rfl⟩ | ⟨rfl, rfl⟩ | ⟨rfl, rfl⟩ <;> rfl

theorem verdict?_order {label : String} {idx : StreamIdx}
    (hcheck : (label, idx) ∈ orderChecks) :
    (verdicts stats).verdict? label = some (orderVerdict (stats idx)) := by
  rw [Report.verdict?, verdicts_lines]
  simp only [orderChecks, List.mem_cons, Prod.mk.injEq, List.not_mem_nil,
    or_false] at hcheck
  rcases hcheck with ⟨rfl, rfl⟩ | ⟨rfl, rfl⟩ <;> rfl

/-! ## Single verdicts -/

variable {st : StreamStats}

theorem deliveredVerdict_pass_iff (hsent : st.sent ≠ 0) :
    deliveredVerdict st = .pass ↔ st.echoes = st.sent := by
  unfold deliveredVerdict
  rw [if_neg hsent]
  by_cases hall : st.echoes = st.sent <;> simp [hall]

theorem deliveredVerdict_fail (hsent : st.sent ≠ 0) (hall : st.echoes ≠ st.sent) :
    deliveredVerdict st = .fail (u64Sub st.sent st.echoes) := by
  unfold deliveredVerdict
  rw [if_neg hsent, if_neg hall]

theorem orderVerdict_pass_iff : orderVerdict st = .pass ↔ st.violations = 0 := by
  unfold orderVerdict
  by_cases hnone : st.violations = 0 <;> simp [hnone]

/-- The difference is the true one exactly when it does not underflow. -/
theorem u64Sub_add_iff {sent echoes : ℕ} (hne : echoes ≠ sent) :
    u64Sub sent echoes + echoes = sent ↔ echoes < sent := by
  unfold u64Sub
  split <;> omega

end EntanglementRs.Soak
