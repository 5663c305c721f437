import EntanglementRs.Lib.Pacing
import EntanglementRs.Stress.Model

/-!
# The accounts of the stress test

What the counters of each virtual client say about the sends that were accepted
and the callbacks that were made, through every order of C's answers and calls.
-/

namespace EntanglementRs.Stress

open Transition Pacing

/-- How many clients have been pushed. -/
def StressPc.built (cfg : Config) : StressPc → ℕ
  | .batches base => min base cfg.numClients
  | .batch _ idx => idx
  | _ => cfg.numClients

/-- The send loop has been reached. -/
def StressPc.Running : StressPc → Prop
  | .checking => True
  | .starting => True
  | .visiting _ _ _ => True
  | .draining => True
  | .collected _ => True
  | _ => False

/-- The sends of a cycle that `total_sent` does not include yet. -/
def StressPc.pending : StressPc → ℕ
  | .visiting _ _ sends => sends
  | _ => 0

namespace StressTest

/-- The accepted sends of one client, in order. -/
def sendsOf (s : StressTest) (i : ℕ) : List Send :=
  s.accepted.filter fun x => x.client = i

/-- The `k`th message of a client. -/
def numbered (i k : ℕ) : StressMsg := ⟨UInt32.ofNat i, UInt32.ofNat k⟩

/-- What a client's counters say. -/
structure ClientAccount (s : StressTest) (i : ℕ) (vc : VirtualClient) : Prop where
  sequence : (s.sendsOf i).map Send.bytes =
    (List.range (s.sendsOf i).length).map fun k => (numbered i k).bytes
  channel : ∀ x ∈ s.sendsOf i, x.channel = vc.channelId.toInt8.toUInt8
  sent : vc.sent = UInt32.ofNat (s.sendsOf i).length
  echoes : vc.echoes = UInt32.ofNat (s.echoed.count i)
  losses : vc.losses = UInt32.ofNat (s.lost.count i)
  opened : vc.connected = true → 0 ≤ vc.channelId
  idle : vc.connected = false →
    s.sendsOf i = [] ∧ s.echoed.count i = 0 ∧ s.lost.count i = 0

/-- A cycle has begun by `clock`, and after all sends of the clients it still has
to visit. -/
def Fresh (s : StressTest) (pc : StressPc) (clock : ℕ) : Prop :=
  ∀ now i sends, pc = .visiting now i sends →
    now ≤ clock ∧ ∀ x ∈ s.accepted, i ≤ x.client → x.time ≤ now

structure Inv (cfg : Config) (s : StressTest) : Prop where
  built : s.clients.length = s.pc.built cfg
  batch : ∀ base idx, s.pc = .batch base idx →
    base < cfg.numClients ∧ base ≤ idx ∧ idx ≤ cfg.batchEnd base
  connectOk : s.connectOk = s.clients.countP VirtualClient.connected
  connectFail : s.connectOk + s.connectFail = s.clients.length
  each : ∀ i vc, s.clients[i]? = some vc → s.ClientAccount i vc
  known : ∀ x ∈ s.accepted, x.client < s.clients.length
  knownEcho : ∀ i ∈ s.echoed, i < s.clients.length
  knownLost : ∀ i ∈ s.lost, i < s.clients.length
  total : s.accepted.length = s.totalSent + s.pc.pending
  quiet : ¬ s.pc.Running → s.accepted = []
  times : s.pc.Running → s.lastSend.length = cfg.numClients
  delayed : ∀ i, Delayed cfg.sendInterval Send.cycle Send.time (s.sendsOf i)
  due : ∀ i last, s.lastSend[i]? = some last →
    ∀ x ∈ s.sendsOf i, x.cycle + cfg.sendInterval ≤ last
  past : ∀ x ∈ s.accepted, x.time ≤ s.clock
  /-- What the clients still to be visited sent, they sent before this cycle. -/
  fresh : s.Fresh s.pc s.clock

theorem start_inv (cfg : Config) : Inv cfg start where
  built := by simp [start, StressPc.built]
  batch := by simp [start]
  connectOk := rfl
  connectFail := rfl
  each := by simp [start]
  known := by simp [start]
  knownEcho := by simp [start]
  knownLost := by simp [start]
  total := rfl
  quiet _ := rfl
  times := by simp [start, StressPc.Running]
  delayed _ := delayed_nil
  due := by simp [start]
  past := by simp [start]
  fresh := by simp [start, Fresh]

variable {cfg : Config} {s s' : StressTest}

/-! ## One client -/

theorem clientAccount_set {i : ℕ} {vc vc' : VirtualClient} {clients : List VirtualClient}
    (hvc : clients[i]? = some vc) (hi : s.ClientAccount i vc')
    (hothers : ∀ j w, j ≠ i → clients[j]? = some w → s.ClientAccount j w) :
    ∀ j w, (clients.set i vc')[j]? = some w → s.ClientAccount j w := by
  intro j w hw
  have hlt := (List.getElem?_eq_some_iff.mp hvc).1
  by_cases hj : j = i
  · subst hj
    rw [List.getElem?_set_self hlt, Option.some.injEq] at hw
    exact hw ▸ hi
  · rw [List.getElem?_set_ne (Ne.symm hj)] at hw
    exact hothers j w hj hw

theorem countP_set_same {i : ℕ} {vc vc' : VirtualClient} {clients : List VirtualClient}
    (hvc : clients[i]? = some vc) (hsame : vc'.connected = vc.connected) :
    (clients.set i vc').countP VirtualClient.connected =
      clients.countP VirtualClient.connected := by
  have hmap : (clients.set i vc').map VirtualClient.connected =
      clients.map VirtualClient.connected := by
    obtain ⟨hi, hget⟩ := List.getElem?_eq_some_iff.mp hvc
    rw [List.map_set, hsame, ← hget]
    have hi' : i < (clients.map VirtualClient.connected).length := by
      rw [List.length_map]
      exact hi
    have hself := List.set_getElem_self hi'
    rw [List.getElem_map] at hself
    exact hself
  have hcount := congrArg (List.countP id) hmap
  rw [List.countP_map, List.countP_map] at hcount
  exact hcount

theorem ClientAccount.congr {i : ℕ} {vc : VirtualClient} (hi : s.ClientAccount i vc)
    (hsends : s'.sendsOf i = s.sendsOf i) (hechoes : s'.echoed.count i = s.echoed.count i)
    (hlosses : s'.lost.count i = s.lost.count i) : s'.ClientAccount i vc where
  sequence := by
    rw [hsends]
    exact hi.sequence
  channel := by
    rw [hsends]
    exact hi.channel
  sent := by
    rw [hsends]
    exact hi.sent
  echoes := by
    rw [hechoes]
    exact hi.echoes
  losses := by
    rw [hlosses]
    exact hi.losses
  opened := hi.opened
  idle := by
    rw [hsends, hechoes, hlosses]
    exact hi.idle

theorem ofNat_count_concat (is : List ℕ) (i : ℕ) :
    UInt32.ofNat ((is ++ [i]).count i) = UInt32.ofNat (is.count i) + 1 := by
  rw [List.count_append, List.count_singleton_self, UInt32.ofNat_add]
  rfl

theorem known_of_count {is js : List ℕ} {i n : ℕ} (hknown : ∀ j ∈ is, j < n) (hi : i < n)
    (hcount : ∀ j, j ≠ i → js.count j = is.count j) : ∀ j ∈ js, j < n := by
  intro j hj
  by_cases hne : j = i
  · exact hne ▸ hi
  · rw [← List.count_pos_iff, hcount j hne, List.count_pos_iff] at hj
    exact hknown j hj

/-! ## Steps without a send -/

/-- Steps that only move on. -/
theorem Inv.frame (hs : Inv cfg s) {pc : StressPc} {clock : ℕ} (total : ℕ)
    (hclock : s.clock ≤ clock) (hfresh : s.Fresh pc clock)
    (hbuilt : pc.built cfg = s.pc.built cfg)
    (hbatch : ∀ base idx, pc = .batch base idx →
      base < cfg.numClients ∧ base ≤ idx ∧ idx ≤ cfg.batchEnd base)
    (htotal : total + pc.pending = s.totalSent + s.pc.pending)
    (hrunning : pc.Running ↔ s.pc.Running) :
    Inv cfg { s with pc := pc, clock := clock, totalSent := total } where
  built := hs.built.trans hbuilt.symm
  batch := hbatch
  connectOk := hs.connectOk
  connectFail := hs.connectFail
  each i vc hvc := (hs.each i vc hvc).congr rfl rfl rfl
  known := hs.known
  knownEcho := hs.knownEcho
  knownLost := hs.knownLost
  total := hs.total.trans htotal.symm
  quiet hpc := hs.quiet fun h => hpc (hrunning.mpr h)
  times hpc := hs.times (hrunning.mp hpc)
  delayed := hs.delayed
  due := hs.due
  past x hx := Nat.le_trans (hs.past x hx) hclock
  fresh := hfresh

/-- A callback of a connected client counts for that client. -/
theorem Inv.callback (hs : Inv cfg s) {i : ℕ} {vc vc' : VirtualClient}
    (hvc : s.clients[i]? = some vc) (hsame : vc'.connected = vc.connected)
    {echoed lost : List ℕ}
    (haccount : ClientAccount { s with echoed := echoed, lost := lost } i vc')
    (hechoed : ∀ j, j ≠ i → echoed.count j = s.echoed.count j)
    (hlost : ∀ j, j ≠ i → lost.count j = s.lost.count j) :
    Inv cfg { s with clients := s.clients.set i vc', echoed := echoed, lost := lost } where
  built := (List.length_set ..).trans hs.built
  batch := hs.batch
  connectOk := hs.connectOk.trans (countP_set_same hvc hsame).symm
  connectFail := hs.connectFail.trans (List.length_set ..).symm
  each := by
    refine clientAccount_set hvc ?_ fun j w hj hw => ?_
    · exact haccount.congr rfl rfl rfl
    · exact (hs.each j w hw).congr rfl (hechoed j hj) (hlost j hj)
  known x hx := by
    rw [List.length_set]
    exact hs.known x hx
  knownEcho := by
    rw [List.length_set]
    exact known_of_count hs.knownEcho (List.getElem?_eq_some_iff.mp hvc).1 hechoed
  knownLost := by
    rw [List.length_set]
    exact known_of_count hs.knownLost (List.getElem?_eq_some_iff.mp hvc).1 hlost
  total := hs.total
  quiet := hs.quiet
  times := hs.times
  delayed := hs.delayed
  due := hs.due
  past := hs.past
  fresh := hs.fresh

theorem Inv.echo (hs : Inv cfg s) {i : ℕ} {vc : VirtualClient}
    (hvc : s.clients[i]? = some vc) (hconnected : vc.connected = true) :
    Inv cfg { s with
      clients := s.clients.set i vc.countEcho
      echoed := s.echoed ++ [i] } := by
  have hi := hs.each i vc hvc
  have hsame : vc.countEcho.connected = vc.connected := rfl
  refine hs.callback hvc hsame ?_ (fun j hj => by simp [hj.symm]) fun _ _ => rfl
  exact
    { sequence := hi.sequence
      channel := hi.channel
      sent := hi.sent
      echoes := by
        rw [ofNat_count_concat, ← hi.echoes]
        rfl
      losses := hi.losses
      opened := hi.opened
      idle := fun hidle => absurd (hconnected.symm.trans hidle) (by decide) }

theorem Inv.packetLost (hs : Inv cfg s) {i : ℕ} {vc : VirtualClient}
    (hvc : s.clients[i]? = some vc) (hconnected : vc.connected = true) :
    Inv cfg { s with
      clients := s.clients.set i vc.countLoss
      lost := s.lost ++ [i] } := by
  have hi := hs.each i vc hvc
  have hsame : vc.countLoss.connected = vc.connected := rfl
  refine hs.callback hvc hsame ?_ (fun _ _ => rfl) fun j hj => by simp [hj.symm]
  exact
    { sequence := hi.sequence
      channel := hi.channel
      sent := hi.sent
      echoes := hi.echoes
      losses := by
        rw [ofNat_count_concat, ← hi.losses]
        rfl
      opened := hi.opened
      idle := fun hidle => absurd (hconnected.symm.trans hidle) (by decide) }

theorem Inv.sendsOf_eq_nil (hs : Inv cfg s) {i : ℕ} (hi : s.clients.length ≤ i) :
    s.sendsOf i = [] := by
  apply List.filter_eq_nil_iff.mpr
  intro x hx hsame
  have hlt := hs.known x hx
  simp only [decide_eq_true_eq] at hsame
  omega

theorem client_opened (o : Outcome) (hconnected : o.client.connected = true) :
    0 ≤ o.client.channelId := by
  cases o with
  | refused | timedOut => contradiction
  | opened chId =>
      by_cases hneg : chId < 0
      · simp [Outcome.client, hneg, VirtualClient.placeholder] at hconnected
      · simp only [Outcome.client, if_neg hneg]
        exact Int32.not_lt.mp hneg

theorem client_zero (o : Outcome) :
    o.client.sent = 0 ∧ o.client.echoes = 0 ∧ o.client.losses = 0 := by
  cases o with
  | refused | timedOut => exact ⟨rfl, rfl, rfl⟩
  | opened chId =>
      by_cases hneg : chId < 0 <;>
        simp [Outcome.client, hneg, VirtualClient.placeholder]

/-- A client that has just been pushed has no account yet. -/
theorem Inv.new_account (hs : Inv cfg s) (o : Outcome) :
    s.ClientAccount s.clients.length o.client := by
  have hsends := hs.sendsOf_eq_nil (Nat.le_refl _)
  have hechoes : s.echoed.count s.clients.length = 0 :=
    List.count_eq_zero.mpr fun h => Nat.lt_irrefl _ (hs.knownEcho _ h)
  have hlosses : s.lost.count s.clients.length = 0 :=
    List.count_eq_zero.mpr fun h => Nat.lt_irrefl _ (hs.knownLost _ h)
  obtain ⟨hsent, hecho, hloss⟩ := client_zero o
  exact
    { sequence := by simp [hsends]
      channel := by simp [hsends]
      sent := by simp [hsends, hsent]
      echoes := by simp [hechoes, hecho]
      losses := by simp [hlosses, hloss]
      opened := client_opened o
      idle := fun _ => ⟨hsends, hechoes, hlosses⟩ }

theorem Inv.connect (hs : Inv cfg s) {base idx : ℕ} (o : Outcome)
    (hpc : s.pc = .batch base idx) (hidx : idx < cfg.batchEnd base) :
    Inv cfg { s with
      pc := .batch base (idx + 1)
      clients := s.clients ++ [o.client]
      connectOk := if o.client.connected then s.connectOk + 1 else s.connectOk
      connectFail := if o.client.connected then s.connectFail
        else s.connectFail + 1 } := by
  have hlength : s.clients.length = idx := by
    rw [hs.built, hpc]
    rfl
  obtain ⟨hbase, hle, _⟩ := hs.batch base idx hpc
  constructor
  · rw [List.length_append, List.length_singleton, hlength]
    rfl
  · intro base' idx' hpc'
    obtain ⟨rfl, rfl⟩ := StressPc.batch.inj hpc'
    exact ⟨hbase, Nat.le_succ_of_le hle, hidx⟩
  · rw [List.countP_append, List.countP_singleton, hs.connectOk]
    cases o.client.connected <;> rfl
  · have hfail := hs.connectFail
    rw [List.length_append, List.length_singleton]
    dsimp only
    split <;> omega
  · intro i vc hvc
    rw [List.getElem?_append] at hvc
    split at hvc
    next => exact (hs.each i vc hvc).congr rfl rfl rfl
    next hi =>
      have hlt := (List.getElem?_eq_some_iff.mp hvc).1
      rw [List.length_singleton] at hlt
      obtain rfl : i = s.clients.length := by omega
      rw [Nat.sub_self, List.getElem?_cons_zero, Option.some.injEq] at hvc
      rw [← hvc]
      exact (hs.new_account o).congr rfl rfl rfl
  · intro x hx
    rw [List.length_append]
    exact Nat.lt_add_right _ (hs.known x hx)
  · intro i hi
    rw [List.length_append]
    exact Nat.lt_add_right _ (hs.knownEcho i hi)
  · intro i hi
    rw [List.length_append]
    exact Nat.lt_add_right _ (hs.knownLost i hi)
  · have htotal := hs.total
    rw [hpc] at htotal
    exact htotal
  · intro _
    apply hs.quiet
    rw [hpc]
    exact id
  · exact False.elim
  · exact hs.delayed
  · exact hs.due
  · exact hs.past
  · simp [Fresh]

theorem Inv.begin (hs : Inv cfg s) {base : ℕ} (hpc : s.pc = .batches base)
    (hbase : cfg.numClients ≤ base) : Inv cfg (s.begin cfg) := by
  have hnone : s.accepted = [] := hs.quiet (by simp [hpc, StressPc.Running])
  have hbuilt : s.clients.length = cfg.numClients := by
    rw [hs.built, hpc]
    exact Nat.min_eq_right hbase
  have htotal := hs.total
  rw [hpc] at htotal
  unfold StressTest.begin
  split
  next =>
    apply hs.frame s.totalSent (Nat.le_refl s.clock)
    · simp [Fresh]
    · exact hbuilt.symm.trans hs.built
    · simp
    · rw [hpc]
      rfl
    · simp [hpc, StressPc.Running]
  next =>
    exact
      { built := hbuilt
        batch := by simp
        connectOk := hs.connectOk
        connectFail := hs.connectFail
        each := fun i vc hvc => (hs.each i vc hvc).congr rfl rfl rfl
        known := hs.known
        knownEcho := hs.knownEcho
        knownLost := hs.knownLost
        total := htotal
        quiet := fun h => absurd trivial h
        times := by simp
        delayed := hs.delayed
        due := by simp [sendsOf, hnone]
        past := hs.past
        fresh := by simp [Fresh] }

/-! ## Sends -/

theorem Inv.skip (hs : Inv cfg s) {now i sends : ℕ} (hpc : s.pc = .visiting now i sends) :
    Inv cfg { s with pc := .visiting now (i + 1) sends } := by
  apply hs.frame s.totalSent (Nat.le_refl s.clock)
  · intro now' i' sends' hpc'
    obtain ⟨rfl, rfl, rfl⟩ := StressPc.visiting.inj hpc'
    obtain ⟨hnow, hearlier⟩ := hs.fresh now i sends hpc
    exact ⟨hnow, fun x hx hi => hearlier x hx (Nat.le_of_succ_le hi)⟩
  · rw [hpc]
    rfl
  · simp
  · rw [hpc]
    rfl
  · simp [hpc, StressPc.Running]

/-- A client whose turn it was: its next send is due an interval later. -/
theorem Inv.bump (hs : Inv cfg s) {now i sends last : ℕ}
    (hpc : s.pc = .visiting now i sends) (hlast : s.lastSend[i]? = some last)
    (hdue : last ≤ now) :
    Inv cfg { s with
      pc := .visiting now (i + 1) sends
      lastSend := s.lastSend.set i (now + cfg.sendInterval) } := by
  have hskip := hs.skip hpc
  exact
    { hskip with
      each := fun i vc hvc => (hs.each i vc hvc).congr rfl rfl rfl
      times := fun h => (List.length_set ..).trans (hskip.times h)
      due := by
        intro j last' hj x hx
        by_cases hji : j = i
        · subst hji
          have hlt := (List.getElem?_eq_some_iff.mp hlast).1
          rw [List.getElem?_set_self hlt, Option.some.injEq] at hj
          have hbefore := hs.due j last hlast x hx
          omega
        · rw [List.getElem?_set_ne (Ne.symm hji)] at hj
          exact hs.due j last' hj x hx }

theorem sendsOf_concat_self (x : Send) :
    sendsOf { s with accepted := s.accepted ++ [x] } x.client =
      s.sendsOf x.client ++ [x] := by
  simp [sendsOf]

theorem sendsOf_concat_ne {i : ℕ} {x : Send} (hne : i ≠ x.client) :
    sendsOf { s with accepted := s.accepted ++ [x] } i = s.sendsOf i := by
  simp [sendsOf, Ne.symm hne]

/-- A send comes after its cycle began, and that after all earlier sends of the client. -/
theorem Inv.delayed_concat (hs : Inv cfg s) {x : Send} {last : ℕ}
    (hlast : s.lastSend[x.client]? = some last) (hdue : last ≤ x.cycle)
    (hlate : x.cycle ≤ x.time)
    (hearlier : ∀ y ∈ s.accepted, x.client ≤ y.client → y.time ≤ x.cycle) (j : ℕ) :
    Delayed cfg.sendInterval Send.cycle Send.time
      (sendsOf { s with accepted := s.accepted ++ [x] } j) := by
  by_cases hj : j = x.client
  · rw [hj, sendsOf_concat_self]
    apply (hs.delayed x.client).concat _ hlate
    · intro y hy
      obtain ⟨hy, hclient⟩ := List.mem_filter.mp hy
      exact hearlier y hy (Nat.le_of_eq (of_decide_eq_true hclient).symm)
    · intro y hy
      exact Nat.le_trans (hs.due x.client last hlast y hy) hdue
  · rw [sendsOf_concat_ne hj]
    exact hs.delayed j

/-- The account of a client whose send was accepted. -/
theorem ClientAccount.send {i : ℕ} {vc : VirtualClient} (hi : s.ClientAccount i vc)
    (hconnected : vc.connected = true) {x : Send} (hclient : x.client = i)
    (hbytes : x.bytes = (message i vc).bytes)
    (hchannel : x.channel = vc.channelId.toInt8.toUInt8) :
    ClientAccount { s with accepted := s.accepted ++ [x] } i
      { vc with sent := vc.sent + 1 } := by
  subst hclient
  have hsends := sendsOf_concat_self (s := s) x
  refine ⟨?_, ?_, ?_, hi.echoes, hi.losses, hi.opened, fun hidle =>
    absurd (hconnected.symm.trans hidle) (by decide)⟩
  · rw [hsends, List.map_append, hi.sequence, List.length_append, List.length_singleton,
      List.range_succ, List.map_append]
    simp [hbytes, message, numbered, hi.sent]
  · rw [hsends]
    intro y hy
    rcases List.mem_append.mp hy with hy | hy
    · exact hi.channel y hy
    · rw [List.mem_singleton.mp hy]
      exact hchannel
  · rw [hsends, List.length_append, List.length_singleton, UInt32.ofNat_add, ← hi.sent]
    rfl

theorem Inv.accept (hs : Inv cfg s) {now i sends last : ℕ} {vc : VirtualClient}
    (hpc : s.pc = .visiting now i sends) (hvc : s.clients[i]? = some vc)
    (hlast : s.lastSend[i]? = some last) (hconnected : vc.connected = true)
    (hdue : last ≤ now) :
    Inv cfg { s with
      pc := .visiting now (i + 1) (sends + 1)
      clients := s.clients.set i { vc with sent := vc.sent + 1 }
      lastSend := s.lastSend.set i (now + cfg.sendInterval)
      accepted := s.accepted ++
        [⟨i, (message i vc).bytes, vc.channelId.toInt8.toUInt8, now, s.clock⟩] } := by
  obtain ⟨hnow, hearlier⟩ := hs.fresh now i sends hpc
  have hbump := hs.bump hpc hlast hdue
  have hsame : ({ vc with sent := vc.sent + 1 } : VirtualClient).connected =
      vc.connected := rfl
  have hlt := (List.getElem?_eq_some_iff.mp hvc).1
  have hlt' := (List.getElem?_eq_some_iff.mp hlast).1
  constructor
  · exact (List.length_set ..).trans hbump.built
  · simp
  · exact hs.connectOk.trans (countP_set_same hvc hsame).symm
  · exact hs.connectFail.trans (List.length_set ..).symm
  · refine clientAccount_set hvc ?_ fun j w hj hw => ?_
    · exact ((hs.each i vc hvc).send hconnected rfl rfl rfl).congr rfl rfl rfl
    · exact (hs.each j w hw).congr (sendsOf_concat_ne hj) rfl rfl
  · intro x hx
    rw [List.length_set]
    rcases List.mem_append.mp hx with hx | hx
    · exact hs.known x hx
    · rw [List.mem_singleton.mp hx]
      exact hlt
  · rw [List.length_set]
    exact hs.knownEcho
  · rw [List.length_set]
    exact hs.knownLost
  · have htotal := hbump.total
    simp only [List.length_append, List.length_singleton, StressPc.pending] at htotal ⊢
    omega
  · exact fun h => absurd trivial h
  · exact hbump.times
  · exact hs.delayed_concat hlast hdue hnow hearlier
  · intro j last' hlast' x hx
    have hx' := List.mem_filter.mp hx
    rcases List.mem_append.mp hx'.1 with hold | hnew
    · exact hbump.due j last' hlast' x (List.mem_filter.mpr ⟨hold, hx'.2⟩)
    · rw [List.mem_singleton.mp hnew] at hx' ⊢
      obtain rfl : i = j := by simpa using hx'.2
      rw [List.getElem?_set_self hlt', Option.some.injEq] at hlast'
      exact Nat.le_of_eq hlast'
  · intro x hx
    rcases List.mem_append.mp hx with hx | hx
    · exact hs.past x hx
    · obtain rfl := List.mem_singleton.mp hx
      exact Nat.le_refl s.clock
  · intro now' i' sends' hpc'
    obtain ⟨rfl, rfl, rfl⟩ := StressPc.visiting.inj hpc'
    refine ⟨hnow, fun x hx hi => ?_⟩
    rcases List.mem_append.mp hx with hx | hx
    · exact hearlier x hx (Nat.le_of_succ_le hi)
    · -- The round of the new send's client is over.
      rw [List.mem_singleton.mp hx] at hi
      exact absurd hi (Nat.not_succ_le_self i)

theorem Inv.send (hs : Inv cfg s) {now i sends last : ℕ} {vc : VirtualClient}
    {canSend sendOk : Bool} (hpc : s.pc = .visiting now i sends)
    (hvc : s.clients[i]? = some vc) (hlast : s.lastSend[i]? = some last)
    (hconnected : vc.connected = true) (hdue : last ≤ now) :
    Inv cfg (s.send cfg now i sends vc canSend sendOk) := by
  unfold StressTest.send
  split
  next => exact hs.accept hpc hvc hlast hconnected hdue
  next => exact hs.bump hpc hlast hdue

theorem Inv.move (hs : Inv cfg s) (hmove : Move cfg s s') : Inv cfg s' := by
  cases hmove with
  | time t hclock =>
      refine hs.frame _ hclock ?_ rfl hs.batch rfl Iff.rfl
      intro now i sends hpc
      obtain ⟨hnow, hearlier⟩ := hs.fresh now i sends hpc
      exact ⟨Nat.le_trans hnow hclock, hearlier⟩
  | echo i vc hvc hconnected => exact hs.echo hvc hconnected
  | packetLost i vc hvc hconnected => exact hs.packetLost hvc hconnected
  | connect base idx o hpc hidx => exact hs.connect o hpc hidx
  | openBatch base hpc hbase =>
      apply hs.frame s.totalSent (Nat.le_refl s.clock)
      · simp [Fresh]
      · rw [hpc]
        exact (Nat.min_eq_left (Nat.le_of_lt hbase)).symm
      · intro base' idx hbatch
        obtain ⟨rfl, rfl⟩ := StressPc.batch.inj hbatch
        exact ⟨hbase, Nat.le_refl _, by simp only [Config.batchEnd, connectBatch]; omega⟩
      · rw [hpc]
        rfl
      · simp [hpc, StressPc.Running]
  | closeBatch base hpc =>
      apply hs.frame s.totalSent (Nat.le_refl s.clock)
      · simp [Fresh]
      · rw [hpc]
        rfl
      · simp
      · rw [hpc]
        rfl
      · simp [hpc, StressPc.Running]
  | begin base hpc hbase => exact hs.begin hpc hbase
  | check pc hpc hnext =>
      rcases hnext with rfl | rfl <;>
        exact hs.frame _ (Nat.le_refl _) (by simp [Fresh]) (by rw [hpc]; rfl) (by simp)
          (by rw [hpc]; rfl) (by simp [hpc, StressPc.Running])
  | now hpc =>
      refine hs.frame _ (Nat.le_refl _) ?_ (by rw [hpc]; rfl) (by simp) (by rw [hpc]; rfl)
        (by simp [hpc, StressPc.Running])
      intro now i sends hpc'
      obtain ⟨rfl, rfl, rfl⟩ := StressPc.visiting.inj hpc'
      exact ⟨Nat.le_refl _, fun x hx _ => hs.past x hx⟩
  | skip now i sends hpc hi => exact hs.skip hpc
  | attempt now i sends vc last canSend sendOk hpc hi hvc hlast hconnected hdue =>
      exact hs.send hpc hvc hlast hconnected hdue
  | endCycle now sends hpc =>
      exact hs.frame _ (Nat.le_refl _) (by simp [Fresh]) (by rw [hpc]; rfl) (by simp)
        (by rw [hpc]; rfl) (by simp [hpc, StressPc.Running])
  | collect hpc =>
      exact hs.frame _ (Nat.le_refl _) (by simp [Fresh]) (by rw [hpc]; rfl) (by simp)
        (by rw [hpc]; rfl) (by simp [hpc, StressPc.Running])

theorem Reachable.inv (hs : Reachable cfg s) : Inv cfg s :=
  hs.invariant (fun _ _ _ hinv hstep => hinv.move (step_move hstep)) (start_inv cfg)

end StressTest

end EntanglementRs.Stress
