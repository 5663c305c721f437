import EntanglementRs.Soak.Verdicts
import Mathlib.Data.List.Nodup

/-!
# What the verdicts say about the echoes

On an ordered stream the two verdicts together decide whether exactly the
messages sent came back, in order.  On an unordered reliable stream the count
alone decides it only as long as no message comes back twice.
-/

namespace EntanglementRs.Soak

open Transition Ascending

variable {s : SoakState} {i : StreamIdx}

/-! ## Ordered streams -/

/-- The ordered streams with the labels of their two verdicts. -/
def orderedStreams : List (StreamIdx × String × String) :=
  [(sOrd, "SIMPLE ORDERED DELIVERED", "SIMPLE ORDERED ORDER"),
    (fOrd, "FRAG ORDERED DELIVERED", "FRAG ORDERED ORDER")]

theorem orderedStreams_checked {delivered order : String}
    (hi : (i, delivered, order) ∈ orderedStreams) :
    (delivered, i) ∈ deliveredChecks ∧ (order, i) ∈ orderChecks ∧
      isOrdered i = true := by
  simp only [orderedStreams, List.mem_cons, Prod.mk.injEq, List.not_mem_nil,
    or_false] at hi
  rcases hi with ⟨rfl, rfl, rfl⟩ | ⟨rfl, rfl, rfl⟩ <;> decide

theorem map_toNat_injective : Function.Injective (List.map UInt32.toNat) :=
  List.map_injective_iff.mpr fun _ _ h => UInt32.toNat_inj.mp h

theorem sent_ne_zero (hs : Reachable s) (hsent : sentIds s i ≠ []) :
    (s.stats i).sent ≠ 0 := by
  rw [(hs.counted i).sent]
  exact fun hzero => hsent (List.length_eq_zero_iff.mp hzero)

/-- Count, last id and violations of an ordered stream are those of the
one-pass check against the ids sent. -/
theorem counts_decide (hs : Reachable s) (hecho : EchoesSent s)
    (hordered : isOrdered i = true) (hcount : s.attempts i < 2 ^ 32) :
    (s.stats i).echoes = (s.stats i).sent ∧ (s.stats i).violations = 0 ↔
      echoedIds s i = sentIds s i := by
  have hcounted := hs.counted i
  have hnumbered := hs.numbered i
  have hsubset : (echoedIds s i).map UInt32.toNat ⊆ (sentIds s i).map UInt32.toNat :=
    List.map_subset _ (echoedIds_subset hs hecho i)
  have hpos : ∀ n ∈ (sentIds s i).map UInt32.toNat, ⊥ < n := by
    intro n hn
    obtain ⟨id, hid, rfl⟩ := List.mem_map.mp hn
    exact (hnumbered.bounds hcount id hid).1
  have hdecide := Ascending.eq_iff (hnumbered.ascending hcount) hpos hsubset
  rw [List.length_map, List.length_map, ← hcounted.echoes, ← hcounted.sent,
    ← hcounted.violations hordered] at hdecide
  rw [hdecide]
  exact map_toNat_injective.eq_iff

/-- Both verdicts of an ordered stream pass exactly when the ids echoed are the
ids sent, in the order they were sent. -/
theorem ordered_pass_iff (hs : Reachable s) (hecho : EchoesSent s)
    {delivered order : String} (hi : (i, delivered, order) ∈ orderedStreams)
    (hcount : s.attempts i < 2 ^ 32) (hsent : sentIds s i ≠ []) :
    (verdicts s.stats).verdict? delivered = some .pass ∧
        (verdicts s.stats).verdict? order = some .pass ↔
      echoedIds s i = sentIds s i := by
  obtain ⟨hdelivered, horder, hordered⟩ := orderedStreams_checked hi
  rw [verdict?_delivered hdelivered, verdict?_order horder, Option.some.injEq,
    Option.some.injEq, deliveredVerdict_pass_iff (sent_ne_zero hs hsent),
    orderVerdict_pass_iff]
  exact counts_decide hs hecho hordered hcount

/-- One pass over the first streams, whose sends end as listed. -/
def sendPass (oks : List Bool) : List SoakAction :=
  .canSend true :: (oks.flatMap fun ok => [.round true false, .sendReturns ok]) ++
    [.round false false]

/-- The second of three sends on the stream fails, and the other two come back. -/
theorem ordered_pass_gap :
    ∃ s, Reachable s ∧ sentIds s sOrd = [1, 3] ∧
      (verdicts s.stats).verdict? "SIMPLE ORDERED DELIVERED" = some .pass ∧
        (verdicts s.stats).verdict? "SIMPLE ORDERED ORDER" = some .pass := by
  have hrun : ∃ s,
      machine.run start
          (sendPass [false, false, true] ++ sendPass [false, false, false] ++
            sendPass [false, false, true] ++
            [.echo .dataReceived (message sOrd 1), .echo .dataReceived (message sOrd 3),
              .timeUp, .finish]) = some s ∧
        s.attempts sOrd = 3 ∧ sentIds s sOrd = [1, 3] ∧ echoedIds s sOrd = [1, 3] ∧
        s.echoed = [message sOrd 1, message sOrd 3] ∧
        s.delivered = [⟨sOrd, 1, message sOrd 1⟩, ⟨sOrd, 3, message sOrd 3⟩] :=
    ⟨_, rfl, rfl, rfl, rfl, rfl, rfl⟩
  obtain ⟨s, hs, hattempts, hsent, hback, hechoed, hdelivered⟩ := hrun
  have hecho : EchoesSent s := by
    simp [EchoesSent, hechoed, hdelivered]
  refine ⟨s, ⟨_, hs⟩, hsent, ?_⟩
  apply (ordered_pass_iff ⟨_, hs⟩ hecho (i := sOrd) (by decide) (by omega)
    (by rw [hsent]; simp)).mpr
  rw [hback, hsent]

/-! ## Unordered reliable streams -/

def reliableStreams : List (StreamIdx × String) :=
  [(sRel, "SIMPLE RELIABLE DELIVERED"), (fRel, "FRAG RELIABLE DELIVERED")]

theorem reliableStreams_checked {label : String} (hi : (i, label) ∈ reliableStreams) :
    (label, i) ∈ deliveredChecks := by
  simp only [reliableStreams, List.mem_cons, Prod.mk.injEq, List.not_mem_nil,
    or_false] at hi
  rcases hi with ⟨rfl, rfl⟩ | ⟨rfl, rfl⟩ <;> decide

/-- Every id sent on the stream came back as often as it was sent. -/
def EchoedOnce (s : SoakState) (i : StreamIdx) : Prop :=
  ∀ id ∈ sentIds s i, (echoedIds s i).count id = (sentIds s i).count id

/-- Before the ids wrap they are distinct, so each is to come back once. -/
theorem echoedOnce_iff (hs : Reachable s) (hcount : s.attempts i < 2 ^ 32) :
    EchoedOnce s i ↔ ∀ id ∈ sentIds s i, (echoedIds s i).count id = 1 := by
  have hnodup : (sentIds s i).Nodup :=
    List.Nodup.of_map _ (nodup_of_pairwise_lt ((hs.numbered i).ascending hcount))
  constructor
  · intro honce id hid
    rw [honce id hid, List.count_eq_one_of_mem hnodup hid]
  · intro hone id hid
    rw [hone id hid, List.count_eq_one_of_mem hnodup hid]

theorem perm_of_echoedOnce (hs : Reachable s) (hecho : EchoesSent s)
    (honce : EchoedOnce s i) : (echoedIds s i).Perm (sentIds s i) := by
  rw [List.perm_iff_count]
  intro id
  by_cases hid : id ∈ sentIds s i
  · exact honce id hid
  · have hunechoed : id ∉ echoedIds s i := fun hmem =>
      hid (echoedIds_subset hs hecho i hmem)
    rw [List.count_eq_zero_of_not_mem hid, List.count_eq_zero_of_not_mem hunechoed]

/-- What the `DELIVERED` verdict of an unordered reliable stream is to say. -/
structure DeliveredExact (s : SoakState) (i : StreamIdx) (label : String) : Prop where
  pass : (verdicts s.stats).verdict? label = some .pass ↔ EchoedOnce s i
  fails : ¬ EchoedOnce s i →
    ∃ missing, (verdicts s.stats).verdict? label = some (.fail missing) ∧
      missing + (s.stats i).echoes = (s.stats i).sent ∧
        (verdicts s.stats).allPass = false

/-- Without a surplus echo the count decides. -/
theorem echoedOnce_of_count_le (hle : ∀ id, (echoedIds s i).count id ≤
      (sentIds s i).count id) (hlen : (sentIds s i).length ≤ (echoedIds s i).length) :
    EchoedOnce s i := by
  have hsubperm : (echoedIds s i).Subperm (sentIds s i) :=
    List.subperm_ext_iff.mpr fun id _ => hle id
  have hperm := hsubperm.perm_of_length_le hlen
  intro id _
  exact hperm.count_eq id

theorem allPass_of_fail {label : String} {missing : ℕ}
    (hcheck : (label, i) ∈ deliveredChecks)
    (hfail : deliveredVerdict (s.stats i) = .fail missing) :
    (verdicts s.stats).allPass = false := by
  apply Bool.eq_false_iff.mpr
  intro hpass
  have hnone := verdicts_allPass.mp hpass (label, i) hcheck
  rw [hfail] at hnone
  contradiction

theorem delivered_exact_iff (hs : Reachable s) (hecho : EchoesSent s) {label : String}
    (hi : (i, label) ∈ reliableStreams) (hsent : sentIds s i ≠ []) :
    DeliveredExact s i label ↔
      (echoedIds s i).length < (sentIds s i).length ∨
        ∀ id, (echoedIds s i).count id ≤ (sentIds s i).count id := by
  have hcheck := reliableStreams_checked hi
  have hcounted := hs.counted i
  have hne := sent_ne_zero hs hsent
  have hpass : (verdicts s.stats).verdict? label = some .pass ↔
      (echoedIds s i).length = (sentIds s i).length := by
    rw [verdict?_delivered hcheck, Option.some.injEq, deliveredVerdict_pass_iff hne,
      hcounted.echoes, hcounted.sent]
  constructor
  · intro hexact
    by_cases honce : EchoedOnce s i
    · apply Or.inr
      intro id
      rw [(perm_of_echoedOnce hs hecho honce).count_eq id]
    · obtain ⟨missing, hverdict, hdifference, _⟩ := hexact.fails honce
      rw [hcounted.echoes, hcounted.sent] at hdifference
      have hunequal : (echoedIds s i).length ≠ (sentIds s i).length := fun heq =>
        honce (hexact.pass.mp (hpass.mpr heq))
      exact Or.inl (by omega)
  · intro hcondition
    have hfew : ¬ EchoedOnce s i → (echoedIds s i).length < (sentIds s i).length := by
      intro honce
      cases hcondition with
      | inl hless => exact hless
      | inr hle =>
          apply Nat.lt_of_not_le
          intro hlen
          exact honce (echoedOnce_of_count_le hle hlen)
    constructor
    · rw [hpass]
      constructor
      · intro heq
        by_contra honce
        exact absurd heq (hfew honce).ne
      · intro honce
        exact (perm_of_echoedOnce hs hecho honce).length_eq
    · intro honce
      have hless := hfew honce
      rw [← hcounted.echoes, ← hcounted.sent] at hless
      have hfail := deliveredVerdict_fail hne hless.ne
      refine ⟨_, ?_, (u64Sub_add_iff hless.ne).mpr hless, allPass_of_fail hcheck hfail⟩
      rw [verdict?_delivered hcheck, hfail]

/-- Two messages that come back in the other order. -/
theorem delivered_exact_swapped :
    ∃ s, Reachable s ∧ echoedIds s sRel = [2, 1] ∧
      DeliveredExact s sRel "SIMPLE RELIABLE DELIVERED" := by
  have hrun : ∃ s,
      machine.run start
          (sendPass [false, true] ++ sendPass [false, true] ++
            [.echo .dataReceived (message sRel 2), .echo .dataReceived (message sRel 1),
              .timeUp, .finish]) = some s ∧
        sentIds s sRel = [1, 2] ∧ echoedIds s sRel = [2, 1] ∧
        s.echoed = [message sRel 2, message sRel 1] ∧
        s.delivered = [⟨sRel, 1, message sRel 1⟩, ⟨sRel, 2, message sRel 2⟩] :=
    ⟨_, rfl, rfl, rfl, rfl, rfl⟩
  obtain ⟨s, hs, hsent, hback, hechoed, hdelivered⟩ := hrun
  have hecho : EchoesSent s := by
    simp [EchoesSent, hechoed, hdelivered]
  refine ⟨s, ⟨_, hs⟩, hback, ?_⟩
  apply (delivered_exact_iff ⟨_, hs⟩ hecho (by decide) (by rw [hsent]; simp)).mpr
  apply Or.inr
  intro id
  rw [hback, hsent]
  exact (List.Perm.swap 1 2 []).count_eq id |>.le

/-- A duplicate makes up for a lost message, and where nothing is lost it makes
the number of missing messages wrap. -/
theorem delivered_duplicate_inexact :
    (∃ s, Reachable s ∧ EchoesSent s ∧ sentIds s sRel = [1, 2] ∧
      echoedIds s sRel = [1, 1] ∧
      (verdicts s.stats).verdict? "SIMPLE RELIABLE DELIVERED" = some .pass ∧
      (verdicts s.stats).allPass = true ∧
      ¬ DeliveredExact s sRel "SIMPLE RELIABLE DELIVERED") ∧
    ∃ s, Reachable s ∧ EchoesSent s ∧ sentIds s sRel = [1] ∧ echoedIds s sRel = [1, 1] ∧
      (verdicts s.stats).verdict? "SIMPLE RELIABLE DELIVERED" =
        some (.fail 18446744073709551615) ∧
      ¬ DeliveredExact s sRel "SIMPLE RELIABLE DELIVERED" := by
  constructor
  · have hrun : ∃ s,
        machine.run start
            (sendPass [false, true] ++ sendPass [false, true] ++
              [.echo .dataReceived (message sRel 1), .echo .dataReceived (message sRel 1),
                .timeUp, .finish]) = some s ∧
          sentIds s sRel = [1, 2] ∧ echoedIds s sRel = [1, 1] ∧
          s.echoed = [message sRel 1, message sRel 1] ∧
          s.delivered = [⟨sRel, 1, message sRel 1⟩, ⟨sRel, 2, message sRel 2⟩] ∧
          (verdicts s.stats).verdict? "SIMPLE RELIABLE DELIVERED" = some .pass ∧
          (verdicts s.stats).allPass = true :=
      ⟨_, rfl, rfl, rfl, rfl, rfl, rfl, rfl⟩
    obtain ⟨s, hs, hsent, hback, hechoed, hdelivered, hverdict, hpass⟩ := hrun
    refine ⟨s, ⟨_, hs⟩, ?_, hsent, hback, hverdict, hpass, ?_⟩
    · simp [EchoesSent, hechoed, hdelivered]
    · intro hexact
      have hlost := hexact.pass.mp hverdict 2 (by rw [hsent]; simp)
      rw [hback, hsent] at hlost
      contradiction
  · have hrun : ∃ s,
        machine.run start
            (sendPass [false, true] ++
              [.echo .dataReceived (message sRel 1), .echo .dataReceived (message sRel 1),
                .timeUp, .finish]) = some s ∧
          sentIds s sRel = [1] ∧ echoedIds s sRel = [1, 1] ∧
          s.echoed = [message sRel 1, message sRel 1] ∧
          s.delivered = [⟨sRel, 1, message sRel 1⟩] ∧
          (verdicts s.stats).verdict? "SIMPLE RELIABLE DELIVERED" =
            some (.fail 18446744073709551615) ∧
          (s.stats sRel).sent = 1 :=
      ⟨_, rfl, rfl, rfl, rfl, rfl, rfl, rfl⟩
    obtain ⟨s, hs, hsent, hback, hechoed, hdelivered, hverdict, hcount⟩ := hrun
    refine ⟨s, ⟨_, hs⟩, ?_, hsent, hback, hverdict, ?_⟩
    · simp [EchoesSent, hechoed, hdelivered]
    · intro hexact
      have honce : ¬ EchoedOnce s sRel := by
        intro honce
        have htwice := honce 1 (by rw [hsent]; simp)
        rw [hback, hsent] at htwice
        contradiction
      obtain ⟨missing, hfail, hdifference, _⟩ := hexact.fails honce
      rw [hverdict] at hfail
      have hmissing := Verdict.fail.inj (Option.some.inj hfail)
      omega

end EntanglementRs.Soak
