import EntanglementRs.Soak.Run
import Mathlib.Order.Nat

/-!
# What the counters of the soak test count

In every run the `sent` and `echoes` counters are the lengths of what was sent
and echoed, the `violations` of an ordered stream are what a one-pass check of
its echoes finds, and, before the ids wrap, those sent on a stream ascend
from 1.
-/

namespace EntanglementRs.Soak

open Transition Ascending

variable {s s' : SoakState} {i : StreamIdx}

/-! ## One echo -/

theorem recordEcho_apply (stats : Stats) (payload : List UInt8) (i : StreamIdx) :
    recordEcho stats payload i =
      match echoId? i payload with
      | none => stats i
      | some msgId => (stats i).echo (isOrdered i) msgId := by
  unfold recordEcho echoId?
  cases hread : SoakMsg.read? payload with
  | none => rfl
  | some msg =>
      by_cases hsame : msg.streamIdx.toNat = i
      · have hbound : msg.streamIdx.toNat < numStreams := hsame ▸ i.isLt
        have hidx : (⟨msg.streamIdx.toNat, hbound⟩ : StreamIdx) = i := Fin.ext hsame
        simp only [dif_pos hbound, hidx, if_pos hsame, Function.update_self]
      · simp only [if_neg hsame]
        split
        next hbound =>
          apply Function.update_of_ne
          rintro rfl
          exact hsame rfl
        next => rfl

theorem echoedIds_concat (stats : Stats) (payload : List UInt8) :
    echoedIds { s with stats := stats, echoed := s.echoed ++ [payload] } i =
      echoedIds s i ++ (echoId? i payload).toList := by
  unfold echoedIds
  rw [List.filterMap_append]
  cases hid : echoId? i payload <;> simp [hid]

theorem sentIds_concat (pc : SoakPc) (stats : Stats) (msg : Outgoing) :
    sentIds { s with pc := pc, stats := stats, delivered := s.delivered ++ [msg] } i =
      sentIds s i ++ if msg.idx = i then [msg.msgId] else [] := by
  unfold sentIds
  rw [List.filter_append, List.map_append]
  by_cases hidx : msg.idx = i <;> simp [hidx]

/-! ## The statistics of one stream -/

/-- The statistics are those of these ids, sent and echoed in this order. -/
structure StreamStats.CountOf (st : StreamStats) (ordered : Bool)
    (sent echoed : List UInt32) : Prop where
  sent : st.sent = sent.length
  echoes : st.echoes = echoed.length
  last : ordered = true →
    st.lastEchoId.toNat = lastFrom ⊥ (echoed.map UInt32.toNat)
  violations : ordered = true →
    st.violations = stumblesFrom ⊥ (echoed.map UInt32.toNat)

namespace StreamStats.CountOf

variable {st : StreamStats} {ordered : Bool} {sent echoed : List UInt32}

theorem countSent (hst : st.CountOf ordered sent echoed) (msgId : UInt32) :
    st.countSent.CountOf ordered (sent ++ [msgId]) echoed where
  sent := by
    rw [List.length_append, ← hst.sent]
    rfl
  echoes := hst.echoes
  last := hst.last
  violations := hst.violations

theorem echo (hst : st.CountOf ordered sent echoed) (msgId : UInt32) :
    (st.echo ordered msgId).CountOf ordered sent (echoed ++ [msgId]) where
  sent := hst.sent
  echoes := by
    rw [List.length_append, ← hst.echoes]
    rfl
  last := by
    intro hordered
    rw [List.map_append, List.map_singleton, lastFrom_concat]
    simp only [StreamStats.echo, hordered, if_true]
  violations := by
    intro hordered
    rw [List.map_append, List.map_singleton, stumblesFrom_concat,
      ← hst.last hordered, ← hst.violations hordered]
    have hcompare :
        (msgId ≤ st.lastEchoId ∧ 0 < st.lastEchoId) ↔
          msgId.toNat ≤ st.lastEchoId.toNat ∧ ⊥ < st.lastEchoId.toNat := Iff.rfl
    simp only [StreamStats.echo, hordered, true_and, stumble]
    split
    next hboth => rw [if_pos (hcompare.mp hboth)]
    next hboth => rw [if_neg (hcompare.not.mp hboth), Nat.add_zero]

end StreamStats.CountOf

def Counted (s : SoakState) (i : StreamIdx) : Prop :=
  (s.stats i).CountOf (isOrdered i) (sentIds s i) (echoedIds s i)

theorem start_counted (i : StreamIdx) : Counted start i where
  sent := rfl
  echoes := rfl
  last _ := rfl
  violations _ := rfl

theorem counted_step (hmove : Move s s') (hs : Counted s i) : Counted s' i := by
  cases hmove with
  | echo payload =>
      show (recordEcho s.stats payload i).CountOf (isOrdered i) (sentIds s i) _
      rw [recordEcho_apply, echoedIds_concat]
      cases echoId? i payload with
      | none =>
          rw [Option.toList_none, List.append_nil]
          exact hs
      | some msgId => exact hs.echo msgId
  | goto | build => exact hs
  | accepted msg hpc =>
      show (Function.update s.stats msg.idx (s.stats msg.idx).countSent i).CountOf _ _
        (echoedIds s i)
      rw [sentIds_concat]
      by_cases hidx : msg.idx = i
      · subst hidx
        rw [if_pos rfl, Function.update_self]
        exact hs.countSent msg.msgId
      · rw [if_neg hidx, List.append_nil, Function.update_of_ne (Ne.symm hidx)]
        exact hs

theorem Reachable.counted (hs : Reachable s) (i : StreamIdx) : Counted s i :=
  hs.invariant (start_counted i) fun _ _ hmove hcounted => counted_step hmove hcounted

/-! ## The ids sent on one stream -/

/-- Until the `u32` counter of the stream wraps, every message sent on it has
the number of the attempt as its id. -/
structure Numbered (s : SoakState) (i : StreamIdx) : Prop where
  counter : s.counters i = UInt32.ofNat (s.attempts i)
  ascending : s.attempts i < 2 ^ 32 →
    ((sentIds s i).map UInt32.toNat).Pairwise (· < ·)
  bounds : s.attempts i < 2 ^ 32 →
    ∀ id ∈ sentIds s i, 0 < id.toNat ∧ id.toNat ≤ s.attempts i
  building : s.attempts i < 2 ^ 32 → ∀ msg, s.pc = .sending msg → msg.idx = i →
    msg.msgId.toNat = s.attempts i ∧ 0 < s.attempts i ∧
      ∀ id ∈ sentIds s i, id.toNat < s.attempts i

theorem start_numbered (i : StreamIdx) : Numbered start i where
  counter := rfl
  ascending _ := by simp [start, sentIds]
  bounds _ := by simp [start, sentIds]
  building _ msg hpc := by simp [start] at hpc

theorem numbered_build (hs : Numbered s i) (idx : StreamIdx) :
    Numbered { s with
      pc := .sending ⟨idx, s.counters idx + 1, message idx (s.counters idx + 1)⟩
      counters := Function.update s.counters idx (s.counters idx + 1)
      attempts := Function.update s.attempts idx (s.attempts idx + 1) } i := by
  by_cases hidx : i = idx
  · subst hidx
    have hnext : s.counters i + 1 = UInt32.ofNat (s.attempts i + 1) := by
      rw [hs.counter]
      exact (UInt32.ofNat_add (s.attempts i) 1).symm
    constructor <;> simp only [Function.update_self]
    · exact hnext
    · intro hwrap
      exact hs.ascending (by omega)
    · intro hwrap id hid
      have hbounds := hs.bounds (by omega) id hid
      omega
    · intro hwrap msg hpc _
      obtain rfl := SoakPc.sending.inj hpc
      refine ⟨?_, Nat.succ_pos _, ?_⟩
      · rw [hnext, UInt32.toNat_ofNat']
        exact Nat.mod_eq_of_lt hwrap
      · intro id hid
        have hbounds := hs.bounds (by omega) id hid
        omega
  · constructor <;> simp only [Function.update_of_ne hidx]
    · exact hs.counter
    · exact hs.ascending
    · exact hs.bounds
    · intro _ msg hpc hmsg
      obtain rfl := SoakPc.sending.inj hpc
      exact absurd hmsg.symm hidx

theorem numbered_accepted (hs : Numbered s i) {msg : Outgoing}
    (hpc : s.pc = .sending msg) (stats : Stats) :
    Numbered { s with
      pc := .loop (msg.idx + 1)
      stats := stats
      delivered := s.delivered ++ [msg] } i := by
  have hids := sentIds_concat (s := s) (i := i) (.loop (msg.idx + 1)) stats msg
  by_cases hidx : msg.idx = i
  · rw [if_pos hidx] at hids
    refine ⟨hs.counter, ?_, ?_, by simp⟩
    · intro hwrap
      obtain ⟨hid, _, hless⟩ := hs.building hwrap msg hpc hidx
      rw [hids, List.map_append, List.map_singleton, List.pairwise_append]
      refine ⟨hs.ascending hwrap, List.pairwise_singleton _ _, ?_⟩
      intro n hn m hm
      obtain ⟨id, hmem, rfl⟩ := List.mem_map.mp hn
      rw [List.mem_singleton.mp hm, hid]
      exact hless id hmem
    · intro hwrap id hid
      obtain ⟨hmsg, hpos, _⟩ := hs.building hwrap msg hpc hidx
      rw [hids, List.mem_append, List.mem_singleton] at hid
      cases hid with
      | inl hold => exact hs.bounds hwrap id hold
      | inr hnew =>
          subst hnew
          exact ⟨hmsg ▸ hpos, hmsg.le⟩
  · rw [if_neg hidx, List.append_nil] at hids
    refine ⟨hs.counter, ?_, ?_, by simp⟩
    · rw [hids]
      exact hs.ascending
    · rw [hids]
      exact hs.bounds

theorem numbered_step (hmove : Move s s') (hs : Numbered s i) : Numbered s' i := by
  cases hmove with
  | echo payload => exact ⟨hs.counter, hs.ascending, hs.bounds, hs.building⟩
  | goto pc hpc =>
      exact ⟨hs.counter, hs.ascending, hs.bounds, fun _ msg h => absurd h (hpc msg)⟩
  | build idx => exact numbered_build hs idx
  | accepted msg hpc => exact numbered_accepted hs hpc _

theorem Reachable.numbered (hs : Reachable s) (i : StreamIdx) : Numbered s i :=
  hs.invariant (start_numbered i) fun _ _ hmove hnumbered => numbered_step hmove hnumbered

/-! ## Echoes of what was sent -/

/-- Every buffer is the one built for its stream and id. -/
structure Built (s : SoakState) : Prop where
  sending : ∀ msg, s.pc = .sending msg → msg.buf = message msg.idx msg.msgId
  delivered : ∀ msg ∈ s.delivered, msg.buf = message msg.idx msg.msgId

theorem start_built : Built start where
  sending msg hpc := by simp [start] at hpc
  delivered := by simp [start]

theorem built_step (hmove : Move s s') (hs : Built s) : Built s' := by
  cases hmove with
  | echo payload => exact ⟨hs.sending, hs.delivered⟩
  | goto pc hpc => exact ⟨fun msg h => absurd h (hpc msg), hs.delivered⟩
  | build idx =>
      refine ⟨?_, hs.delivered⟩
      intro msg hpc
      obtain rfl := SoakPc.sending.inj hpc
      rfl
  | accepted msg hpc =>
      refine ⟨by simp, ?_⟩
      intro other hother
      cases List.mem_append.mp hother with
      | inl hold => exact hs.delivered other hold
      | inr hnew =>
          rw [List.mem_singleton.mp hnew]
          exact hs.sending msg hpc

theorem Reachable.built (hs : Reachable s) : Built s :=
  hs.invariant start_built fun _ _ hmove hbuilt => built_step hmove hbuilt

theorem echoId?_message (i idx : StreamIdx) (msgId : UInt32) :
    echoId? i (message idx msgId) = if idx = i then some msgId else none := by
  obtain ⟨msg, hread, hid, hidx⟩ := read?_message idx msgId
  unfold echoId?
  rw [hread]
  simp only [hidx, hid, Fin.val_inj]

/-- If only accepted messages are echoed, every id echoed on a stream is one
that was sent on it. -/
theorem echoedIds_subset (hs : Reachable s) (hecho : EchoesSent s) (i : StreamIdx) :
    echoedIds s i ⊆ sentIds s i := by
  intro id hid
  obtain ⟨payload, hpayload, hread⟩ := List.mem_filterMap.mp hid
  obtain ⟨msg, hmsg, rfl⟩ := hecho payload hpayload
  rw [hs.built.delivered msg hmsg, echoId?_message] at hread
  split at hread
  next hidx =>
    have hmem : msg ∈ s.delivered.filter fun msg => msg.idx = i :=
      List.mem_filter.mpr ⟨hmsg, by simpa using hidx⟩
    rw [← Option.some.inj hread]
    exact List.mem_map_of_mem hmem
  next => contradiction

end EntanglementRs.Soak
