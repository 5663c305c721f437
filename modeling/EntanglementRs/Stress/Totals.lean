import EntanglementRs.Stress.Accounts
import Mathlib.Algebra.BigOperators.Group.Finset.Basic
import Mathlib.Algebra.GroupWithZero.Nat

/-!
# What the stress test reports

The sums over the clients against the sends and the callbacks of the whole run,
the messages that arrive at the server, and the rate at which they are sent.
-/

namespace EntanglementRs.Stress

open Transition Pacing

namespace StressTest

variable {cfg : Config} {s : StressTest}

/-! ## Sums over the clients -/

/-- A client's share in a sum over the connected ones. -/
def share (counter : VirtualClient → UInt32) (vc : VirtualClient) : ℕ :=
  if vc.connected then (counter vc).toNat else 0

theorem finalStats_eq (clients : List VirtualClient) :
    finalStats clients =
      ⟨(clients.map (share VirtualClient.sent)).sum,
        (clients.map (share VirtualClient.echoes)).sum,
        (clients.map (share VirtualClient.losses)).sum⟩ := by
  induction clients with
  | nil => rfl
  | cons vc clients ih =>
      simp only [List.map_cons, List.sum_cons, share] at ih ⊢
      rw [finalStats, ih]
      split
      next => rfl
      next => simp only [Nat.zero_add]

theorem sum_map_eq_length {clients : List VirtualClient} {g : VirtualClient → ℕ}
    {is : List ℕ} (hknown : ∀ i ∈ is, i < clients.length)
    (hg : ∀ i vc, clients[i]? = some vc → g vc = is.count i) :
    (clients.map g).sum = is.length := by
  have hmap : clients.map g = (List.range clients.length).map is.count := by
    apply List.ext_getElem?
    intro i
    rw [List.getElem?_map, List.getElem?_map]
    by_cases hi : i < clients.length
    · rw [List.getElem?_range hi, List.getElem?_eq_getElem hi, Option.map_some,
        Option.map_some, hg i _ (List.getElem?_eq_getElem hi)]
    · rw [List.getElem?_eq_none (Nat.le_of_not_lt hi),
        List.getElem?_eq_none (by simpa using Nat.le_of_not_lt hi)]
      rfl
  have hcount := Multiset.sum_count_eq_card (s := Finset.range clients.length)
    (m := (is : Multiset ℕ)) fun i hi => Finset.mem_range.mpr (hknown i hi)
  have hsum : Finset.sum (Finset.range clients.length) is.count =
      ((List.range clients.length).map is.count).sum := by
    rw [Finset.sum_eq_multiset_sum, Finset.range_val, ← Multiset.coe_range,
      Multiset.map_coe, Multiset.sum_coe]
  simp only [Multiset.coe_count, Multiset.coe_card] at hcount
  rw [hmap, ← hsum]
  exact hcount

theorem share_eq {counter : VirtualClient → UInt32} {vc : VirtualClient} {n : ℕ}
    (hcounter : counter vc = UInt32.ofNat n) (hn : n < 2 ^ 32)
    (hidle : vc.connected = false → n = 0) : share counter vc = n := by
  unfold share
  split
  next =>
    rw [hcounter, UInt32.toNat_ofNat']
    exact Nat.mod_eq_of_lt hn
  next hconnected => exact (hidle (by simpa using hconnected)).symm

theorem length_sendsOf (s : StressTest) (i : ℕ) :
    (s.sendsOf i).length = (s.accepted.map Send.client).count i := by
  rw [sendsOf, List.count_eq_countP, List.countP_map, List.countP_eq_length_filter]
  congr 2

/-- No client's counter has wrapped around. -/
def Unwrapped (s : StressTest) : Prop :=
  ∀ i, (s.sendsOf i).length < 2 ^ 32 ∧ s.echoed.count i < 2 ^ 32 ∧ s.lost.count i < 2 ^ 32

theorem Inv.finalStats_eq (hs : Inv cfg s) (hunwrapped : s.Unwrapped) :
    finalStats s.clients = ⟨s.accepted.length, s.echoed.length, s.lost.length⟩ := by
  have hsent : (s.clients.map (share VirtualClient.sent)).sum = s.accepted.length := by
    rw [← List.length_map (f := Send.client)]
    apply sum_map_eq_length
    · intro i hi
      obtain ⟨x, hx, rfl⟩ := List.mem_map.mp hi
      exact hs.known x hx
    · intro i vc hvc
      have hi := hs.each i vc hvc
      rw [← length_sendsOf]
      exact share_eq hi.sent (hunwrapped i).1 fun h =>
        List.length_eq_zero_iff.mpr (hi.idle h).1
  have hechoes : (s.clients.map (share VirtualClient.echoes)).sum = s.echoed.length := by
    apply sum_map_eq_length hs.knownEcho
    intro i vc hvc
    have hi := hs.each i vc hvc
    exact share_eq hi.echoes (hunwrapped i).2.1 fun h => (hi.idle h).2.1
  have hlosses : (s.clients.map (share VirtualClient.losses)).sum = s.lost.length := by
    apply sum_map_eq_length hs.knownLost
    intro i vc hvc
    have hi := hs.each i vc hvc
    exact share_eq hi.losses (hunwrapped i).2.2 fun h => (hi.idle h).2.2
  rw [StressTest.finalStats_eq, hsent, hechoes, hlosses]

theorem delivered?_eq_none (stats : FinalStats) :
    stats.delivered? = none ↔ 0 < stats.finalSent ∧ stats.finalSent < stats.finalLosses := by
  unfold FinalStats.delivered?
  split
  next hsent =>
    split
    next hle =>
      constructor
      · exact fun h => nomatch h
      · exact fun h => absurd h.2 (Nat.not_lt.mpr hle)
    next hlt => exact ⟨fun _ => ⟨hsent, Nat.lt_of_not_le hlt⟩, fun _ => rfl⟩
  next hsent => exact ⟨fun h => (nomatch h), fun h => absurd h.1 hsent⟩

/-- What the sums over the clients say of the whole run. -/
structure Reported (cfg : Config) (s : StressTest) : Prop where
  stats : finalStats s.clients = ⟨s.accepted.length, s.echoed.length, s.lost.length⟩
  total : s.accepted.length = s.totalSent + s.pc.pending
  collected : s.pc = .draining → (machine cfg).step s .advance =
    some { s with pc := .collected ⟨s.totalSent, s.echoed.length, s.lost.length⟩ }
  underflow : (finalStats s.clients).delivered? = none ↔
    s.accepted ≠ [] ∧ s.accepted.length < s.lost.length

/-- The statistics count the sends that C accepted and the callbacks that it
made; packets lost more than once make the delivery rate underflow. -/
theorem reachable_reported (hs : Reachable cfg s) (hunwrapped : s.Unwrapped) :
    s.Reported cfg := by
  have hstats := hs.inv.finalStats_eq hunwrapped
  have htotal := hs.inv.total
  constructor
  · exact hstats
  · exact htotal
  · intro hpc
    rw [hpc] at htotal
    have hsent : s.totalSent = s.accepted.length := htotal.symm
    simp only [machine, step, hpc, hstats, hsent]
  · rw [delivered?_eq_none, hstats, List.length_pos_iff]

/-- A client whose one packet is lost twice, next to one that is refused. -/
def lostTwice : List StressAction :=
  [.advance, .connect (.opened 261), .connect .refused, .advance, .advance, .advance,
    .advance, .visit true true true, .visit true true true, .advance, .packetLost 0,
    .packetLost 0, .time 1000000000, .advance]

theorem reachable_reported_lostTwice :
    ∃ s, (machine ⟨2, 1, 10⟩).run start lostTwice = some s ∧
      s.accepted.map Send.channel = [5] ∧ (finalStats s.clients).delivered? = none ∧
      s.Reported ⟨2, 1, 10⟩ := by
  have hrun : ∃ s, (machine ⟨2, 1, 10⟩).run start lostTwice = some s ∧
      s.accepted = [⟨0, [0, 0, 0, 0, 0, 0, 0, 0], 5, 0, 0⟩] ∧ s.echoed = [] ∧
      s.lost = [0, 0] := ⟨_, rfl, rfl, rfl, rfl⟩
  obtain ⟨s, hrun, haccepted, hechoed, hlost⟩ := hrun
  have hunwrapped : s.Unwrapped := by
    intro i
    have hlength := List.length_filter_le (fun x : Send => x.client = i) s.accepted
    have hcount := List.count_le_length (a := i) (l := s.lost)
    rw [haccepted] at hlength
    rw [hlost] at hcount
    simp only [sendsOf, haccepted, hechoed, hlost, List.length_cons, List.length_nil,
      List.count_nil] at hlength hcount ⊢
    omega
  have hreported := reachable_reported ⟨_, hrun⟩ hunwrapped
  refine ⟨s, hrun, ?_, hreported.underflow.mpr ?_, hreported⟩
  · rw [haccepted]
    rfl
  · rw [haccepted, hlost]
    decide

/-! ## The messages -/

theorem StressMsg.bytes_inj {msg msg' : StressMsg} (hbytes : msg.bytes = msg'.bytes) :
    msg = msg' := by
  have hclient := congrArg (Soak.u32At · 0) hbytes
  simp only [StressMsg.bytes, Soak.u32At_bytes] at hclient
  have hsequence := hbytes
  rw [StressMsg.bytes, StressMsg.bytes, hclient, List.append_cancel_left_eq] at hsequence
  have hat := congrArg (fun bytes => Soak.u32At (bytes ++ []) 0) hsequence
  simp only [Soak.u32At_bytes] at hat
  cases msg
  cases msg'
  simp_all

theorem numbered_inj {i j k l : ℕ} (hi : i < 2 ^ 32) (hj : j < 2 ^ 32) (hk : k < 2 ^ 32)
    (hl : l < 2 ^ 32) (hbytes : (numbered i k).bytes = (numbered j l).bytes) :
    i = j ∧ k = l := by
  have hmsg := StressMsg.bytes_inj hbytes
  simp only [numbered, StressMsg.mk.injEq, ← UInt32.toNat_inj, UInt32.toNat_ofNat'] at hmsg
  rw [Nat.mod_eq_of_lt hi, Nat.mod_eq_of_lt hj, Nat.mod_eq_of_lt hk,
    Nat.mod_eq_of_lt hl] at hmsg
  exact hmsg

/-- What holds within each client and between any two holds of the whole list. -/
theorem pairwise_of_sendsOf {R : Send → Send → Prop} {sends : List Send}
    (hwithin : ∀ i, (sends.filter fun x => x.client = i).Pairwise R)
    (hbetween : ∀ x ∈ sends, ∀ y ∈ sends, x.client ≠ y.client → R x y) :
    sends.Pairwise R := by
  induction sends with
  | nil => exact List.Pairwise.nil
  | cons x sends ih =>
      constructor
      · intro y hy
        by_cases hclient : y.client = x.client
        · have hx := hwithin x.client
          rw [List.filter_cons_of_pos (by simp)] at hx
          exact List.rel_of_pairwise_cons hx
            (List.mem_filter.mpr ⟨hy, by simpa using hclient⟩)
        · exact hbetween x List.mem_cons_self y (List.mem_cons_of_mem x hy)
            (Ne.symm hclient)
      · apply ih
        · intro i
          exact (hwithin i).sublist ((List.sublist_cons_self x sends).filter _)
        · intro y hy z hz
          exact hbetween y (List.mem_cons_of_mem x hy) z (List.mem_cons_of_mem x hz)

theorem Inv.numbered (hs : Inv cfg s) (i : ℕ) :
    (s.sendsOf i).map Send.bytes =
      (List.range (s.sendsOf i).length).map fun k => (numbered i k).bytes := by
  cases hvc : s.clients[i]? with
  | some vc => exact (hs.each i vc hvc).sequence
  | none => simp [hs.sendsOf_eq_nil (List.getElem?_eq_none_iff.mp hvc)]

theorem Inv.mem_numbered (hs : Inv cfg s) {x : Send} (hx : x ∈ s.accepted) :
    ∃ k < (s.sendsOf x.client).length, x.bytes = (StressTest.numbered x.client k).bytes := by
  have hsends : x ∈ s.sendsOf x.client := List.mem_filter.mpr ⟨hx, by simp⟩
  have hbytes := List.mem_map_of_mem (f := Send.bytes) hsends
  rw [hs.numbered] at hbytes
  obtain ⟨k, hk, hnumbered⟩ := List.mem_map.mp hbytes
  exact ⟨k, List.mem_range.mp hk, hnumbered.symm⟩

theorem Inv.length_le (hs : Inv cfg s) : s.clients.length ≤ cfg.numClients := by
  rw [hs.built]
  cases hpc : s.pc with
  | batches base => exact Nat.min_le_right _ _
  | batch base idx =>
      exact Nat.le_trans (hs.batch base idx hpc).2.2 (Nat.min_le_right _ _)
  | _ => exact Nat.le_refl _

theorem Inv.nodup (hs : Inv cfg s) (hclients : cfg.numClients ≤ 2 ^ 32)
    (hsends : ∀ i, (s.sendsOf i).length ≤ 2 ^ 32) : (s.accepted.map Send.bytes).Nodup := by
  have hlt : ∀ x ∈ s.accepted, x.client < 2 ^ 32 := fun x hx =>
    Nat.lt_of_lt_of_le (hs.known x hx) (Nat.le_trans hs.length_le hclients)
  apply List.pairwise_map.mpr
  apply pairwise_of_sendsOf
  · intro i
    by_cases hi : i < s.clients.length
    · have hi32 : i < 2 ^ 32 := Nat.lt_of_lt_of_le hi (Nat.le_trans hs.length_le hclients)
      have hnodup : ((s.sendsOf i).map Send.bytes).Nodup := by
        rw [hs.numbered]
        apply List.Nodup.map_on _ List.nodup_range
        intro k hk l hl hbytes
        exact (numbered_inj hi32 hi32
          (Nat.lt_of_lt_of_le (List.mem_range.mp hk) (hsends i))
          (Nat.lt_of_lt_of_le (List.mem_range.mp hl) (hsends i)) hbytes).2
      exact List.pairwise_map.mp hnodup
    · have hnone := hs.sendsOf_eq_nil (Nat.le_of_not_lt hi)
      rw [sendsOf] at hnone
      rw [hnone]
      exact List.Pairwise.nil
  · intro x hx y hy hne hbytes
    obtain ⟨k, hk, hxk⟩ := hs.mem_numbered hx
    obtain ⟨l, hl, hyl⟩ := hs.mem_numbered hy
    rw [hxk, hyl] at hbytes
    exact hne (numbered_inj (hlt x hx) (hlt y hy) (Nat.lt_of_lt_of_le hk (hsends _))
      (Nat.lt_of_lt_of_le hl (hsends _)) hbytes).1

theorem Inv.channel (hs : Inv cfg s) {x : Send} (hx : x ∈ s.accepted) :
    ∃ vc, s.clients[x.client]? = some vc ∧ vc.connected = true ∧ 0 ≤ vc.channelId ∧
      x.channel = vc.channelId.toInt8.toUInt8 := by
  obtain ⟨vc, hvc⟩ : ∃ vc, s.clients[x.client]? = some vc :=
    ⟨_, List.getElem?_eq_getElem (hs.known x hx)⟩
  have hi := hs.each _ _ hvc
  have hsends : x ∈ s.sendsOf x.client := List.mem_filter.mpr ⟨hx, by simp⟩
  have hconnected : vc.connected = true := by
    by_contra hidle
    rw [(hi.idle (by simpa using hidle)).1] at hsends
    contradiction
  exact ⟨_, hvc, hconnected, hi.opened hconnected, hi.channel x hsends⟩

/-- What C has accepted, and what the loops rely on when they index. -/
structure Numbered (cfg : Config) (s : StressTest) : Prop where
  indexed : s.pc.Running →
    s.clients.length = cfg.numClients ∧ s.lastSend.length = cfg.numClients
  counted : s.connectOk = s.clients.countP VirtualClient.connected ∧
    s.connectOk + s.connectFail = s.clients.length
  numbered : ∀ i, (s.sendsOf i).map Send.bytes =
    (List.range (s.sendsOf i).length).map fun k => (StressTest.numbered i k).bytes
  channel : ∀ x ∈ s.accepted, ∃ vc, s.clients[x.client]? = some vc ∧
    vc.connected = true ∧ 0 ≤ vc.channelId ∧ x.channel = vc.channelId.toInt8.toUInt8
  nodup : cfg.numClients ≤ 2 ^ 32 → (∀ i, (s.sendsOf i).length ≤ 2 ^ 32) →
    (s.accepted.map Send.bytes).Nodup

theorem length_le_countP {clients : List VirtualClient} {is : List ℕ} {n : ℕ}
    (hconnected : ∀ i ∈ is, ∃ vc, clients[i]? = some vc ∧ vc.connected = true)
    (hcount : ∀ i, is.count i ≤ n) :
    is.length ≤ clients.countP VirtualClient.connected * n := by
  induction clients using List.reverseRecOn generalizing is with
  | nil =>
      cases is with
      | nil => exact Nat.zero_le _
      | cons i is =>
          obtain ⟨vc, hvc, _⟩ := hconnected i List.mem_cons_self
          contradiction
  | append_singleton clients vc ih =>
      have hsplit := List.length_eq_length_filter_add (l := is) (· = clients.length)
      have hlast : (is.filter (· = clients.length)).length = is.count clients.length := by
        rw [List.count_eq_countP, List.countP_eq_length_filter]
        congr 2
      have hrest : ∀ i ∈ is.filter (fun i => !decide (i = clients.length)),
          ∃ vc, clients[i]? = some vc ∧ vc.connected = true := by
        intro i hi
        obtain ⟨hi, hne⟩ := List.mem_filter.mp hi
        obtain ⟨w, hw, hconn⟩ := hconnected i hi
        have hlt := (List.getElem?_eq_some_iff.mp hw).1
        simp only [Bool.not_eq_true', decide_eq_false_iff_not, List.length_append,
          List.length_singleton] at hne hlt
        rw [List.getElem?_append_left (by omega)] at hw
        exact ⟨w, hw, hconn⟩
      have hbound := ih hrest fun i =>
        Nat.le_trans (List.Sublist.count_le i List.filter_sublist) (hcount i)
      rw [List.countP_append, List.countP_singleton, Nat.add_mul]
      cases hconn : vc.connected with
      | true =>
          have hvc := hcount clients.length
          rw [if_pos rfl, Nat.one_mul]
          omega
      | false =>
          have hnone : is.count clients.length = 0 := by
            apply List.count_eq_zero.mpr
            intro hmem
            obtain ⟨w, hw, hwconn⟩ := hconnected _ hmem
            simp only [List.getElem?_concat_length, Option.some.injEq] at hw
            rw [← hw, hconn] at hwconn
            contradiction
          rw [if_neg (by decide)]
          omega

/-- The accepted sends in a window of `w` nanoseconds. -/
def sentWithin (s : StressTest) (t w : ℕ) : List Send :=
  s.accepted.filter fun x => t ≤ x.time ∧ x.time ≤ t + w

/-- What the send loop keeps the fleet to.  A cycle that C delays sends after the
`now` it is timed from, which lets one more send into the window. -/
structure Paced (cfg : Config) (s : StressTest) : Prop where
  client : ∀ i t w, ((s.sentWithin t w).map Send.client).count i ≤ w / cfg.sendInterval + 2
  fleet : ∀ t w,
    (s.sentWithin t w).length ≤ s.connectOk * (w / cfg.sendInterval + 2)

theorem Inv.count_sentWithin (hs : Inv cfg s) (hinterval : 0 < cfg.sendInterval)
    (i t w : ℕ) :
    ((s.sentWithin t w).map Send.client).count i ≤ w / cfg.sendInterval + 2 := by
  have hwindow := (hs.delayed i).window hinterval t w
  rw [List.count_eq_countP, List.countP_map, List.countP_eq_length_filter, sentWithin,
    List.filter_filter]
  rw [sendsOf, List.filter_filter] at hwindow
  refine Nat.le_trans (Nat.le_of_eq ?_) hwindow
  congr 2
  funext x
  rw [Bool.and_comm]
  rfl

/-- A client sends once in an interval, so the fleet never sends more in any
window than its connected clients may. -/
theorem reachable_paced (hs : Reachable cfg s) (hrate : cfg.rateHz ≤ 1000000) :
    s.Paced cfg := by
  have hinterval : 0 < cfg.sendInterval := by
    have hmax : max cfg.rateHz 1 ≤ 1000000 := by omega
    have hmicros : 0 < cfg.sendIntervalMicros := Nat.div_pos hmax (by omega)
    exact Nat.mul_pos hmicros (by decide)
  have hcount := hs.inv.count_sentWithin hinterval
  refine ⟨hcount, fun t w => ?_⟩
  rw [hs.inv.connectOk, ← List.length_map (f := Send.client)]
  apply length_le_countP _ fun i => hcount i t w
  intro i hi
  obtain ⟨x, hx, rfl⟩ := List.mem_map.mp hi
  obtain ⟨vc, hvc, hconnected, _⟩ := hs.inv.channel (List.mem_filter.mp hx).1
  exact ⟨vc, hvc, hconnected⟩

/-- The cycle that begins at time 0 reaches its send 100 ms later, when the next
send is due. -/
def lateCycle : List StressAction :=
  [.advance, .connect (.opened 5), .advance, .advance, .advance, .advance,
    .time 100000000, .visit true true true, .advance, .advance, .advance,
    .visit true true true, .advance]

/-- In the window that is one instant the bound is reached. -/
theorem reachable_paced_lateCycle :
    ∃ s, (machine ⟨1, 1, 10⟩).run start lateCycle = some s ∧
      s.accepted.map Send.cycle = [0, 100000000] ∧
      ((s.sentWithin 100000000 0).map Send.client).count 0 = 0 / 100000000 + 2 ∧
      s.Paced ⟨1, 1, 10⟩ := by
  have hrun : ∃ s, (machine ⟨1, 1, 10⟩).run start lateCycle = some s ∧
      s.accepted.map Send.cycle = [0, 100000000] ∧
      ((s.sentWithin 100000000 0).map Send.client).count 0 = 0 / 100000000 + 2 :=
    ⟨_, rfl, rfl, rfl⟩
  obtain ⟨s, hrun, hcycles, hcount⟩ := hrun
  exact ⟨s, hrun, hcycles, hcount, reachable_paced ⟨_, hrun⟩ (by decide)⟩

end StressTest

end EntanglementRs.Stress
