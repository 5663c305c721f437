import EntanglementRs.Bench.Counts
import Mathlib.Data.List.Perm.Subperm
import Mathlib.Data.List.FinRange

/-!
# What the benchmarks report

The lines and the final totals of a benchmark against the sends that C accepted
and the echoes that it handed over, in every run.
-/

namespace EntanglementRs.Bench

open Transition Relaxed

namespace RunClient

variable {n : ℕ} {cfg : Config} {s s' : RunClient n}

structure Inv (cfg : Config) (s : RunClient n) : Prop where
  counters : s.Counters
  threads : ∀ i, s.ThreadAccount cfg i
  waited : s.Waited
  printed : s.Unwrapped → s.Printed

theorem start_inv (cfg : Config) : Inv cfg (start n) where
  counters := ⟨Counter.coherent_zero, Counter.coherent_zero, by simp [Ones, start, Counter.zero],
    by simp [Ones, start, Counter.zero]⟩
  threads _ := ⟨rfl, rfl, Nat.zero_le _, trivial⟩
  waited := ⟨fun i hi => absurd hi (Nat.not_lt_zero _), fun _ hv => (nomatch hv),
    fun _ _ hv => (nomatch hv)⟩
  printed _ :=
    { lastSent := Nat.zero_le _
      lastEcho := Nat.zero_le _
      reading := fun _ hv => (nomatch hv)
      sendRates := rfl
      echoRates := rfl
      noUnderflow := by simp [start]
      sorted := List.Pairwise.nil
      last := by simp [start] }

theorem Move.unwrapped (hmove : Move cfg s s') (hs : s'.Unwrapped) : s.Unwrapped := by
  cases hmove with
  | count i k hpc =>
      obtain ⟨hsent, hechoes⟩ := hs
      rw [Counter.total_add] at hsent
      exact ⟨Nat.lt_of_succ_lt hsent, hechoes⟩
  | echo i hpc =>
      obtain ⟨hsent, hechoes⟩ := hs
      rw [Counter.total_add] at hechoes
      exact ⟨hsent, Nat.lt_of_succ_lt hechoes⟩
  | _ => exact hs

theorem Inv.move (hs : Inv cfg s) (hmove : Move cfg s s') : Inv cfg s' where
  counters := hs.counters.move hmove
  threads := ThreadAccount.move hs.threads hmove
  waited := hs.waited.move hs.counters hmove
  printed hs' := by
    have hunwrapped := hmove.unwrapped hs'
    exact (hs.printed hunwrapped).move hs.counters hunwrapped hmove

theorem Reachable.inv (hs : Reachable cfg s) : Inv cfg s :=
  hs.invariant (fun _ _ _ hinv hstep => hinv.move (step_move hstep)) (start_inv cfg)

/-! ## Counters and calls -/

/-- The threads that added to a counter. -/
def adders (c : Counter (Thread n)) : List (Fin n) := c.adds.filterMap Prod.fst

theorem adders_length {c : Counter (Thread n)} (hc : Ones c) :
    (adders c).length = c.total := by
  rw [hc.total, adders]
  apply List.filterMap_length_eq_length.mpr
  intro x hx
  exact Option.isSome_iff_ne_none.mpr (hc x hx).2

theorem count_adders (c : Counter (Thread n)) (i : Fin n) :
    (adders c).count i = (c.addsOf (some i)).length := by
  rw [adders, List.count_filterMap, List.countP_eq_length_filter, Counter.addsOf]
  congr 2
  funext x
  apply Bool.eq_iff_iff.mpr
  simp

theorem Inv.sent_le (hs : Inv cfg s) : s.sent.total ≤ s.accepted.length := by
  rw [← adders_length hs.counters.sentOnes]
  apply List.Subperm.length_le
  apply List.subperm_ext_iff.mpr
  intro i _
  rw [count_adders, (hs.threads i).counted]
  exact Nat.le_add_right _ _

theorem Inv.accepted_le (hs : Inv cfg s) : s.accepted.length ≤ s.sent.total + n := by
  have hle : s.accepted.length ≤ (adders s.sent ++ List.finRange n).length := by
    apply List.Subperm.length_le
    apply List.subperm_ext_iff.mpr
    intro i _
    have howed : (s.threads i).owed ≤ 1 := by
      cases s.threads i <;> simp [ClientPc.owed]
    rw [List.count_append, count_adders, (hs.threads i).counted,
      List.count_eq_one_of_mem (List.nodup_finRange n) (List.mem_finRange i)]
    exact Nat.add_le_add_left howed _
  rw [List.length_append, adders_length hs.counters.sentOnes, List.length_finRange] at hle
  exact hle

theorem Inv.echoes_eq (hs : Inv cfg s) : s.echoes.total = s.echoed.length := by
  rw [← adders_length hs.counters.echoOnes]
  apply List.Perm.length_eq
  apply List.perm_iff_count.mpr
  intro i
  rw [count_adders, (hs.threads i).echoed]

theorem Inv.sent_eq (hs : Inv cfg s) (hended : ∀ i, s.threads i = .ended) :
    s.sent.total = s.accepted.length := by
  rw [← adders_length hs.counters.sentOnes]
  apply List.Perm.length_eq
  apply List.perm_iff_count.mpr
  intro i
  rw [count_adders, (hs.threads i).counted, hended i]
  rfl

/-! ## The report -/

/-- What a benchmark's output says about the run. -/
structure Summed (cfg : Config) (s : RunClient n) : Prop where
  printed : s.Printed
  truthful : ∀ l ∈ s.lines,
    l.totalSent.toNat ≤ s.accepted.length ∧ l.totalEcho.toNat ≤ s.echoed.length
  behind : s.sent.total ≤ s.accepted.length ∧ s.accepted.length ≤ s.sent.total + n
  burst : ∀ i, s.accepted.count i ≤ cfg.burst * s.polls.count i
  final : ∀ v w, s.reporter = .done v w →
    v.toNat = s.accepted.length ∧ w.toNat = s.echoed.length

/-- Whatever old values the reporter reads, its deltas add up, and once it has
joined the threads its totals are exact. -/
theorem reachable_summed (hs : Reachable cfg s) (haccepted : s.accepted.length < 2 ^ 64)
    (hechoed : s.echoed.length < 2 ^ 64) : s.Summed cfg := by
  have hinv := hs.inv
  have hsent := hinv.sent_le
  have hechoes := hinv.echoes_eq
  have hunwrapped : s.Unwrapped :=
    ⟨Nat.lt_of_le_of_lt hsent haccepted, Nat.lt_of_le_of_lt (Nat.le_of_eq hechoes) hechoed⟩
  have hprinted := hinv.printed hunwrapped
  refine ⟨hprinted, fun l hl => ?_, ⟨hsent, hinv.accepted_le⟩, fun i => ?_, fun v w hv => ?_⟩
  · obtain ⟨hlastSent, hlastEcho⟩ := hprinted.last l hl
    constructor
    · calc l.totalSent.toNat ≤ s.lastSent.toNat := hlastSent
        _ ≤ s.sent.known none := hprinted.lastSent
        _ ≤ s.sent.total := Counter.known_le_total _ _
        _ ≤ s.accepted.length := hsent
    · calc l.totalEcho.toNat ≤ s.lastEcho.toNat := hlastEcho
        _ ≤ s.echoes.known none := hprinted.lastEcho
        _ ≤ s.echoes.total := Counter.known_le_total _ _
        _ = s.echoed.length := hechoes
  · exact Nat.le_trans (Nat.le_add_right _ _) (hinv.threads i).burst
  · obtain ⟨rfl, rfl⟩ := hinv.waited.done v w hv
    have hended : ∀ i, s.threads i = .ended := fun i =>
      (hinv.waited.joined i (by rw [hv]; exact i.isLt)).1
    rw [UInt64.toNat_ofNat', UInt64.toNat_ofNat', Nat.mod_eq_of_lt hunwrapped.1,
      Nat.mod_eq_of_lt hunwrapped.2]
    exact ⟨hinv.sent_eq hended, hechoes⟩

/-- Three clients, of which one does not connect; `main` prints a line while the
second send is not counted yet, and reads old values in another. -/
def staleLines : List (RunAction 3) :=
  [.connected 0, .connected 1, .failed 2, .load 0 true, .canSend 0 true, .canSend 0 true,
    .send 0 true, .count 0, .echo 0, .elapsed false, .read 0, .read 1, .canSend 0 true,
    .send 0 true, .elapsed false, .read 1, .read 1, .count 0, .endBurst 0, .elapsed true,
    .load 0 false, .load 1 true, .canSend 1 false, .load 1 false, .join, .join, .join, .join,
    .read 2, .read 1]

theorem reachable_summed_staleLines :
    ∃ s, (machine ⟨2⟩ 3).run (start 3) staleLines = some s ∧
      s.lines = [⟨0, 1, 0, 1⟩, ⟨1, 0, 1, 1⟩] ∧ s.reporter = .done 2 1 ∧ s.Summed ⟨2⟩ := by
  have hrun : ∃ s, (machine ⟨2⟩ 3).run (start 3) staleLines = some s ∧
      s.lines = [⟨0, 1, 0, 1⟩, ⟨1, 0, 1, 1⟩] ∧ s.reporter = .done 2 1 ∧
      s.accepted = [0, 0] ∧ s.echoed = [0] := ⟨_, rfl, rfl, rfl, rfl, rfl⟩
  obtain ⟨s, hrun, hlines, hreporter, haccepted, hechoed⟩ := hrun
  refine ⟨s, hrun, hlines, hreporter, reachable_summed ⟨_, hrun⟩ ?_ ?_⟩
  · rw [haccepted]
    decide
  · rw [hechoed]
    decide

end RunClient

end EntanglementRs.Bench
