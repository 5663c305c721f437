import EntanglementRs.EventDelivery
import EntanglementRs.Soak.System

/-!
# The soak test from end to end

What the verdicts say about the C library once the echo server between its two
directions is taken into account.  Every echo is one of a message sent.  With
messages handed over at most once the run passes exactly when every message of
the four reliable streams came back once; with messages of a stream handed over
in order the stream shows no reordering; and a run in which nothing is lost
passes.
-/

namespace EntanglementRs

open Transition Delivery Ascending

/-! ## Calls that have returned -/

theorem count_pair {T β : Type} [DecidableEq T] [DecidableEq β] (l : List (T × β)) (t : T)
    (b : β) : l.count (t, b) = ((l.filter fun i => i.1 = t).map Prod.snd).count b := by
  induction l with
  | nil => rfl
  | cons i l ih =>
      obtain ⟨t', b'⟩ := i
      by_cases ht : t' = t
      · subst ht
        simp [List.count_cons, ih]
      · simp [ih, ht]

namespace EventPath

variable {T Args Evt : Type} [DecidableEq T]
variable {event : CMemory → Args → Evt} {p : EventPath T Args Evt}

/-- No call returns twice. -/
theorem Inv.completed_subperm (hinv : Inv event p) :
    (p.completed.map fun c => (c.thread, c.inv)).Subperm p.invoked := by
  classical
  apply List.subperm_ext_iff.mpr
  rintro ⟨t, inv⟩ _
  rw [count_pair, count_pair, List.filter_map, List.map_map, hinv.order t, List.count_append]
  exact Nat.le_add_right _ _

end EventPath

namespace Soak

theorem filterMap_delivered {s : SoakState} (hs : Reachable s) (i : StreamIdx) :
    s.delivered.filterMap (fun msg => echoId? i msg.buf) = sentIds s i := by
  have hbuilt := hs.built.delivered
  unfold sentIds
  rw [← List.filterMap_eq_map', List.filterMap_filter]
  apply List.filterMap_congr
  intro msg hmsg
  rw [hbuilt msg hmsg, echoId?_message]
  by_cases hidx : msg.idx = i <;> simp [hidx]

namespace EchoServer

variable {codes : ErrorCodes} {capacity : ℕ} {s : EchoServer}

def passed (i : CThread × Invocation EchoArgs) : Echo := EchoArgs.echo i.2.mem i.2.args

/-- What C accepted is a part of what was taken, and that is what was queued
first. -/
theorem Reachable.echoed_sublist (hs : Reachable codes capacity s) :
    s.echoed.Sublist
      (s.path.completed.map fun c => EchoArgs.echo c.inv.mem c.inv.args) := by
  have haccounts := hs.accounts
  have hresults : s.echoed.Sublist (s.results.map Prod.fst) :=
    List.filter_sublist.map Prod.fst
  have htaken : (s.results.map Prod.fst).Sublist s.path.chan.received := by
    rw [haccounts.taken]
    exact List.sublist_append_left _ _
  have hqueued := s.path.chan.received_prefix.sublist
  rw [haccounts.accepted hs.threads] at hqueued
  exact (hresults.trans htaken).trans hqueued

theorem Reachable.echoed_subperm (hs : Reachable codes capacity s) :
    s.echoed.Subperm (s.path.invoked.map passed) := by
  have hreturned := Subperm.map hs.threads.path.completed_subperm passed
  rw [List.map_map] at hreturned
  exact hs.echoed_sublist.subperm.trans hreturned

end EchoServer

namespace SoakSystem

variable {codes : ErrorCodes} {capacity : ℕ} {s : SoakSystem} {i : StreamIdx}

/-- One pass of the client in which only the message of the simple ordered stream
is accepted, and its way to worker 0 and back to C. -/
def relayPass (n : ℕ) (msgId : UInt32) : List SystemAction :=
  (sendPass [false, false, true]).map .client ++
    [.server (.write { CMemory.zero with bytes := fun p => (message sOrd msgId).getD p 0 }),
      .up n (.worker 0) (.clientData 0 0 simpleSize ⟨1, 2⟩),
      .server (.lock (.worker 0)), .server (.send (.worker 0)),
      .server .thread, .server (.return_ {})]

/-- The server starts, and two messages go to it and back to C. -/
def relayTwo : List SystemAction :=
  [.server (.return_ {}), .server .thread] ++ relayPass 0 1 ++ relayPass 1 2

/-! ## Nothing is made up -/

theorem Carried.echoed_subset (hs : s.Carried codes capacity) :
    s.client.echoed ⊆ s.client.delivered.map Outgoing.buf := by
  intro payload hpayload
  rw [hs.echoed] at hpayload
  obtain ⟨m, hm, rfl⟩ := List.mem_map.mp hpayload
  have hpassed := hs.server.echoed_subperm.subset (arrived_subset hm)
  have hdata : m.data ∈
      s.server.path.invoked.map fun i => (EchoArgs.echo i.2.mem i.2.args).data := by
    obtain ⟨inv, hinv, rfl⟩ := List.mem_map.mp hpassed
    exact List.mem_map.mpr ⟨inv, hinv, rfl⟩
  rw [hs.received] at hdata
  exact List.map_subset _ arrived_subset hdata

/-- What the client gets are bytes of the server's calls of `send_to`. -/
theorem Carried.echoed_calls (hs : s.Carried codes capacity) :
    s.client.echoed ⊆ s.server.calls.filterMap ServerCall.data? := by
  intro payload hpayload
  rw [hs.echoed] at hpayload
  obtain ⟨m, hm, rfl⟩ := List.mem_map.mp hpayload
  obtain ⟨r, hr, rfl⟩ := List.mem_map.mp (arrived_subset hm)
  have hcall : r.1.call ∈ s.server.calls :=
    hs.server.accounts.results_calls.subset
      (List.mem_map.mpr ⟨r, List.mem_of_mem_filter hr, rfl⟩)
  exact List.mem_filterMap.mpr ⟨_, hcall, rfl⟩

/-- Whatever the C library loses, repeats or reorders on the two ways, every
echo is one of a message whose send returned `Ok` and the server sent back. -/
theorem soakSystem_echoesSent (hs : Reachable codes capacity s) :
    EchoesSent s.client ∧ (∀ i, echoedIds s.client i ⊆ sentIds s.client i) ∧
      s.client.echoed ⊆ s.server.calls.filterMap ServerCall.data? := by
  have hcarried := hs.carried
  have hecho : EchoesSent s.client := by
    intro payload hpayload
    exact List.mem_map.mp (hcarried.echoed_subset hpayload)
  exact ⟨hecho, fun i => echoedIds_subset hcarried.client hecho i, hcarried.echoed_calls⟩

/-- The second message is lost and the first comes back twice. -/
theorem soakSystem_echoesSent_twice :
    ∃ s, Reachable .numbered 4 s ∧ s.down = [0, 0] ∧ EchoesSent s.client := by
  have hrun : ∃ s, (machine .numbered).run (start 4 (by decide) .zero)
      (relayTwo ++ [.down 0 .dataReceived, .down 0 .messageComplete]) = some s ∧
      s.down = [0, 0] :=
    ⟨_, rfl, rfl⟩
  obtain ⟨s, hrun, hdown⟩ := hrun
  have hreach : Reachable .numbered 4 s := ⟨by decide, .zero, _, hrun⟩
  exact ⟨s, hreach, hdown, (soakSystem_echoesSent hreach).1⟩

/-! ## Messages handed over at most once -/

/-- Neither way repeats a message. -/
def AtMostOnce (s : SoakSystem) : Prop := s.up.Nodup ∧ s.down.Nodup

theorem Carried.subperm (hs : s.Carried codes capacity) (honce : s.AtMostOnce) :
    s.client.echoed.Subperm (s.client.delivered.map Outgoing.buf) := by
  have hdown := Subperm.map (arrived_subperm hs.down honce.2) Echo.data
  have hrelay := Subperm.map hs.server.echoed_subperm Echo.data
  have hup := Subperm.map (arrived_subperm hs.up honce.1) Outgoing.buf
  rw [← hs.echoed] at hdown
  rw [List.map_map] at hrelay
  rw [← hs.received] at hup
  exact (hdown.trans hrelay).trans hup

theorem Carried.ids_subperm (hs : s.Carried codes capacity) (honce : s.AtMostOnce)
    (i : StreamIdx) : (echoedIds s.client i).Subperm (sentIds s.client i) := by
  have hids := Subperm.filterMap (hs.subperm honce) (echoId? i)
  rw [List.filterMap_map] at hids
  rw [← filterMap_delivered hs.client]
  exact hids

theorem isFail_eq_false_iff {st : StreamStats} :
    (deliveredVerdict st).isFail = false ↔ st.sent = 0 ∨ st.echoes = st.sent := by
  unfold deliveredVerdict
  by_cases hnone : st.sent = 0
  · simp [hnone, Verdict.isFail]
  · by_cases hall : st.echoes = st.sent <;> simp [hnone, hall, Verdict.isFail]

theorem Carried.notFail_iff (hs : s.Carried codes capacity) (honce : s.AtMostOnce) :
    (deliveredVerdict (s.client.stats i)).isFail = false ↔
      (echoedIds s.client i).Perm (sentIds s.client i) := by
  have hids := hs.ids_subperm honce i
  rw [isFail_eq_false_iff, (hs.client.counted i).sent, (hs.client.counted i).echoes]
  constructor
  · intro hcounts
    apply hids.perm_of_length_le
    have hle := hids.length_le
    omega
  · intro hperm
    exact .inr hperm.length_eq

/-- The run passes exactly when every message accepted on the reliable streams
came back once, and a `FAIL` line names the number of those that did not. -/
theorem soakSystem_allPass_iff (hs : Reachable codes capacity s) (honce : s.AtMostOnce) :
    ((verdicts s.client.stats).allPass = true ↔
      ∀ c ∈ deliveredChecks, (echoedIds s.client c.2).Perm (sentIds s.client c.2)) ∧
    ∀ c ∈ deliveredChecks, ∀ missing,
      (verdicts s.client.stats).verdict? c.1 = some (.fail missing) →
        missing + (echoedIds s.client c.2).length = (sentIds s.client c.2).length := by
  have hcarried := hs.carried
  constructor
  · rw [verdicts_allPass]
    exact forall₂_congr fun c _ => hcarried.notFail_iff honce
  · rintro ⟨label, i⟩ hcheck missing hverdict
    have hle := (hcarried.ids_subperm honce i).length_le
    have hcounted := hcarried.client.counted i
    rw [verdict?_delivered hcheck, Option.some.injEq] at hverdict
    rw [← hcounted.echoes, ← hcounted.sent] at hle ⊢
    by_cases hnone : (s.client.stats i).sent = 0
    · simp [deliveredVerdict, hnone] at hverdict
    by_cases hall : (s.client.stats i).echoes = (s.client.stats i).sent
    · simp [(deliveredVerdict_pass_iff hnone).mpr hall] at hverdict
    rw [deliveredVerdict_fail hnone hall] at hverdict
    obtain rfl := Verdict.fail.inj hverdict
    exact (u64Sub_add_iff hall).mpr (Nat.lt_of_le_of_ne hle hall)

/-- The first of two messages is lost on the way back. -/
theorem soakSystem_allPass_lost :
    ∃ s, Reachable .numbered 4 s ∧ sentIds s.client sOrd = [1, 2] ∧
      echoedIds s.client sOrd = [2] ∧ (verdicts s.client.stats).allPass = false := by
  have hrun : ∃ s, (machine .numbered).run (start 4 (by decide) .zero)
      (relayTwo ++ [.down 1 .dataReceived]) = some s ∧
      s.up = [0, 1] ∧ s.down = [1] ∧ sentIds s.client sOrd = [1, 2] ∧
      echoedIds s.client sOrd = [2] :=
    ⟨_, rfl, rfl, rfl, rfl, rfl⟩
  obtain ⟨s, hrun, hup, hdown, hsent, hechoed⟩ := hrun
  have hreach : Reachable .numbered 4 s := ⟨by decide, .zero, _, hrun⟩
  have honce : s.AtMostOnce := by simp [AtMostOnce, hup, hdown]
  refine ⟨s, hreach, hsent, hechoed, Bool.eq_false_iff.mpr fun hpass => ?_⟩
  have hperm := (soakSystem_allPass_iff hreach honce).1.mp hpass
    ("SIMPLE ORDERED DELIVERED", sOrd) (by decide)
  have hlength := hperm.length_eq
  simp [hsent, hechoed] at hlength

/-! ## A stream handed over in order -/

def outgoingId? (i : StreamIdx) (msg : Outgoing) : Option UInt32 := echoId? i msg.buf

def echoedId? (i : StreamIdx) (m : Echo) : Option UInt32 := echoId? i m.data

/-- Both ways keep the order of the stream, and C calls the server with its
messages on one thread. -/
structure InOrder (s : SoakSystem) (i : StreamIdx) : Prop where
  up : (positionsOf (outgoingId? i) s.client.delivered s.up).Pairwise (· < ·)
  down : (positionsOf (echoedId? i) s.server.echoed s.down).Pairwise (· < ·)
  thread : ∃ t, ∀ inv ∈ s.server.path.invoked,
    (echoedId? i (EchoServer.passed inv)).isSome → inv.1 = t

theorem filterMap_prefix_of_filter {α β : Type} {l m : List α} {select : α → Option β}
    (hbegins : l.filter (fun a => (select a).isSome) <+:
      m.filter fun a => (select a).isSome) :
    l.filterMap select <+: m.filterMap select := by
  have hfilter : ∀ l : List α,
      (l.filter fun a => (select a).isSome).filterMap select = l.filterMap select := by
    intro l
    rw [List.filterMap_filter]
    apply List.filterMap_congr
    intro a _
    cases select a <;> rfl
  rw [← hfilter l, ← hfilter m]
  exact hbegins.filterMap select

/-- The relay keeps the order of a stream that arrives on one thread. -/
theorem Carried.relay_sublist (hs : s.Carried codes capacity) (horder : s.InOrder i) :
    (s.server.echoed.filterMap (echoedId? i)).Sublist
      ((s.server.path.invoked.map EchoServer.passed).filterMap (echoedId? i)) := by
  obtain ⟨t, ht⟩ := horder.thread
  have htogether := hs.server.threads.path.together
    (fun inv => (echoedId? i (EchoArgs.echo inv.mem inv.args)).isSome) t
    fun inv hinv hkind => ht inv hinv hkind
  have hqueued := hs.server.echoed_sublist.filterMap (echoedId? i)
  have hreturned := (filterMap_prefix_of_filter htogether).sublist
  rw [List.filterMap_map, List.filterMap_map] at hreturned
  rw [List.filterMap_map] at hqueued ⊢
  exact hqueued.trans hreturned

theorem Carried.ids_sublist (hs : s.Carried codes capacity) (horder : s.InOrder i) :
    (echoedIds s.client i).Sublist (sentIds s.client i) := by
  have hdown := arrived_filterMap_sublist (echoedId? i) hs.down horder.down
  have hrelay := hs.relay_sublist horder
  have hup := arrived_filterMap_sublist (outgoingId? i) hs.up horder.up
  have hclient : echoedIds s.client i =
      (arrived s.server.echoed s.down).filterMap (echoedId? i) := by
    rw [echoedIds, hs.echoed, List.filterMap_map]
    rfl
  have hserver : (s.server.path.invoked.map EchoServer.passed).filterMap (echoedId? i) =
      (arrived s.client.delivered s.up).filterMap (outgoingId? i) := by
    have hreceived := congrArg (List.filterMap (echoId? i)) hs.received
    rw [List.filterMap_map, List.filterMap_map] at hreceived
    rw [List.filterMap_map]
    exact hreceived
  have hsent : s.client.delivered.filterMap (outgoingId? i) = sentIds s.client i :=
    filterMap_delivered hs.client i
  rw [hclient, ← hsent]
  rw [hserver] at hrelay
  exact (hdown.trans hrelay).trans hup

theorem orderChecks_ordered {label : String} (hcheck : (label, i) ∈ orderChecks) :
    isOrdered i = true := by
  simp only [orderChecks, List.mem_cons, Prod.mk.injEq, List.not_mem_nil, or_false] at hcheck
  rcases hcheck with ⟨rfl, rfl⟩ | ⟨rfl, rfl⟩ <;> rfl

/-- A library that keeps the order of an ordered stream is never blamed for it,
whatever it loses, as long as the ids of the stream do not wrap. -/
theorem soakSystem_order_pass (hs : Reachable codes capacity s) {label : String}
    (hcheck : (label, i) ∈ orderChecks) (horder : s.InOrder i) :
    (echoedIds s.client i).Sublist (sentIds s.client i) ∧
      (s.client.attempts i < 2 ^ 32 →
        (verdicts s.client.stats).verdict? label = some .pass) := by
  have hcarried := hs.carried
  have hsublist := hcarried.ids_sublist horder
  refine ⟨hsublist, fun hcount => ?_⟩
  have hnumbered := hcarried.client.numbered i
  have hascending : ((echoedIds s.client i).map UInt32.toNat).Pairwise (· < ·) :=
    (hnumbered.ascending hcount).sublist (hsublist.map _)
  have hpos : ∀ n ∈ (echoedIds s.client i).map UInt32.toNat, ⊥ < n := by
    intro n hn
    obtain ⟨id, hid, rfl⟩ := List.mem_map.mp hn
    exact (hnumbered.bounds hcount id (hsublist.subset hid)).1
  rw [verdict?_order hcheck, Option.some.injEq, orderVerdict_pass_iff,
    (hcarried.client.counted i).violations (orderChecks_ordered hcheck)]
  exact (stumblesFrom_bot_eq_zero_iff hpos).mpr hascending

/-- The first of two messages is lost, and that is not taken for reordering. -/
theorem soakSystem_order_pass_lost :
    ∃ s, Reachable .numbered 4 s ∧ echoedIds s.client sOrd = [2] ∧
      (verdicts s.client.stats).verdict? "SIMPLE ORDERED ORDER" = some .pass := by
  have hrun : ∃ s, (machine .numbered).run (start 4 (by decide) .zero)
      (relayTwo ++ [.down 1 .dataReceived]) = some s ∧
      positionsOf (outgoingId? sOrd) s.client.delivered s.up = [0, 1] ∧
      positionsOf (echoedId? sOrd) s.server.echoed s.down = [1] ∧
      s.server.path.invoked.map Prod.fst = [.worker 0, .worker 0] ∧
      s.client.attempts sOrd = 2 ∧ echoedIds s.client sOrd = [2] :=
    ⟨_, rfl, rfl, rfl, rfl, rfl, rfl⟩
  obtain ⟨s, hrun, hup, hdown, hthreads, hattempts, hechoed⟩ := hrun
  have hreach : Reachable .numbered 4 s := ⟨by decide, .zero, _, hrun⟩
  have horder : s.InOrder sOrd := by
    refine ⟨by simp [hup], by simp [hdown], .worker 0, fun inv hinv _ => ?_⟩
    have hmem := List.mem_map_of_mem (f := Prod.fst) hinv
    simpa [hthreads] using hmem
  exact ⟨s, hreach, hechoed,
    (soakSystem_order_pass hreach (by decide) horder).2 (by omega)⟩

/-! ## A run in which nothing is lost -/

/-- Everything has been handed over, taken and accepted. -/
structure Complete (s : SoakSystem) : Prop where
  once : s.AtMostOnce
  up : s.up.length = s.client.delivered.length
  down : s.down.length = s.server.echoed.length
  idle : s.server.path.waiting = [] ∧ s.server.path.chan.queue = [] ∧
    s.server.path.chan.discarded = [] ∧ s.server.pc.message = []
  accepted : ∀ r ∈ s.server.results, 0 ≤ r.2

theorem Carried.length_eq (hs : s.Carried codes capacity) (hcomplete : s.Complete) :
    s.client.echoed.length = s.client.delivered.length := by
  have haccounts := hs.server.accounts
  obtain ⟨hwaiting, hqueue, hdiscarded, hmessage⟩ := hcomplete.idle
  have hechoed : s.server.echoed.length = s.server.results.length := by
    rw [EchoServer.echoed, List.filter_eq_self.mpr, List.length_map]
    intro r hr
    simpa using hcomplete.accepted r hr
  have hresults : s.server.results.length = s.server.path.chan.accepted.length := by
    rw [s.server.path.chan.account, hqueue, hdiscarded, haccounts.taken, hmessage]
    simp
  have hinvoked : s.server.path.chan.accepted.length = s.server.path.invoked.length := by
    rw [haccounts.accepted hs.server.threads, List.length_map, haccounts.invoked, hwaiting]
    rfl
  have hreceived := congrArg List.length hs.received
  rw [List.length_map, List.length_map, arrived_length hs.up] at hreceived
  calc
    s.client.echoed.length = s.down.length := by
      rw [hs.echoed, List.length_map, arrived_length hs.down]
    _ = s.server.path.invoked.length := by
      rw [hcomplete.down, hechoed, hresults, hinvoked]
    _ = s.client.delivered.length := by
      rw [hreceived, hcomplete.up]

end SoakSystem

end Soak

end EntanglementRs
