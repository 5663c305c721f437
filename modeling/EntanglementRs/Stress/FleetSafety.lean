import EntanglementRs.Stress.Fleet

/-!
# Safety of the stress test's raw pointers

A closure can run only while the C object of its client can call, and until
then the `VirtualClient` has dropped none of its fields.  So every captured
address points to a live counter, and to the one of the right client.
-/

namespace EntanglementRs

namespace ClosureObject

variable {Slot : Type} [DecidableEq Slot] {api : ClosureApi Slot} {o o' : ClosureObject Slot}

theorem beginSet_cases {s : SetOn Slot} (hstep : step api o (.beginSet s) = some o') :
    o' = { o with
      table := o.table.alloc s.closureType
      calls := o.calls ++ [⟨s, o.table.fresh, api.body⟩] } := by
  simp only [step] at hstep
  split at hstep
  next =>
    split at hstep
    next => exact (Option.some.inj hstep).symm
    next => contradiction
  next => contradiction

theorem setStep_frame {k : ℕ} (hstep : step api o (.setStep k) = some o') :
    ∃ call rest, o.calls[k]? = some call ∧
      o'.calls = o.calls.set k { call with rest := rest } ∧
      o'.table.heap.length = o.table.heap.length ∧ o'.phase = o.phase := by
  simp only [step] at hstep
  split at hstep
  next call _ hcall =>
    split at hstep
    next => contradiction
    next rest _ =>
      obtain rfl := Option.some.inj hstep
      exact ⟨call, rest, hcall, rfl, rfl, rfl⟩
    next rest _ =>
      obtain rfl := Option.some.inj hstep
      exact ⟨call, rest, hcall, rfl, rfl, rfl⟩
  next => contradiction

theorem readSlot_cases {slot : Slot} (hstep : step api o (.readSlot slot) = some o') :
    o' = { o with table := o.table.readSlot slot } := by
  simp only [step] at hstep
  split at hstep
  next => exact (Option.some.inj hstep).symm
  next => contradiction

theorem invoke_cases {pair : CallbackPair} (hstep : step api o (.invoke pair) = some o') :
    o.CanCall ∧ pair ∈ o.table.read ∧ o' = { o with table := o.table.invoke pair } := by
  simp only [step] at hstep
  split at hstep
  next hcall => exact ⟨hcall.1, hcall.2, (Option.some.inj hstep).symm⟩
  next => contradiction

theorem beginDrop_cases (hstep : step api o .beginDrop = some o') :
    o' = { o with phase := .clearing api.clears } := by
  simp only [step] at hstep
  split at hstep
  next =>
    split at hstep
    next => exact (Option.some.inj hstep).symm
    next => contradiction
  next => contradiction

theorem dropStep_frame (hstep : step api o .dropStep = some o') :
    o'.calls = o.calls ∧ o'.table.heap.length = o.table.heap.length := by
  simp only [step] at hstep
  split at hstep
  next => contradiction
  next =>
    obtain rfl := Option.some.inj hstep
    exact ⟨rfl, rfl⟩
  next =>
    obtain rfl := Option.some.inj hstep
    exact ⟨rfl, rfl⟩
  next =>
    obtain rfl := Option.some.inj hstep
    exact ⟨rfl, rfl⟩
  next =>
    obtain rfl := Option.some.inj hstep
    exact ⟨rfl, List.length_modify ..⟩
  next => contradiction

end ClosureObject

namespace Stress

open Transition

/-! ## One client -/

namespace FleetClient

/-- What the statements executed so far have left. -/
def Built (c : FleetClient) : Prop :=
  match c.pc with
  | .boxing _ => c.boxes = none ∧ c.client.calls = []
  | .capturing _ => c.boxes ≠ none ∧ ∀ call ∈ c.client.calls, call.rest = []
  | .setting _ =>
      c.boxes ≠ none ∧ c.client.calls ≠ [] ∧
        ∀ call ∈ c.client.calls.dropLast, call.rest = []
  | .pushed => c.boxes ≠ none ∧ ∀ call ∈ c.client.calls, call.rest = []

structure Owned (heap : List AtomicBox) (called : List (ℕ × Trampoline)) (i : ℕ)
    (c : FleetClient) : Prop where
  object : ClosureObject.Inv EntClient.closureApi c.client
  knows : c.client.KnowsOnlySet
  addresses : ∀ x ∈ c.captured, x.1 < c.client.table.heap.length
  captured : ∀ call ∈ c.client.calls, ∃ kind boxes, call.setOn = CounterKind.setOn kind ∧
    c.boxes = some boxes ∧ c.captured.lookup call.address = some (boxes.address kind)
  built : c.Built
  place : ∀ boxes, c.boxes = some boxes → boxes = ⟨2 * i, 2 * i + 1⟩
  counters : ∀ boxes, c.boxes = some boxes → ∀ kind,
    heap[boxes.address kind]? =
      some ⟨UInt32.ofNat (called.count (i, kind.setOn.trampoline)),
        if .counter kind ∈ c.fields then 0 else 1⟩
  uncalled : c.boxes = none → ∀ t, (i, t) ∉ called
  suffix : c.fields <:+ VirtualClient.dropOrder
  destroyed : .client ∉ c.fields → c.client.phase = .dropBoxes []

variable {heap heap' : List AtomicBox} {called called' : List (ℕ × Trampoline)} {i : ℕ}
  {c : FleetClient} {o : ClosureObject ClientSlot}

theorem owned_new (o : Outcome) (huncalled : ∀ t, (i, t) ∉ called) :
    Owned heap called i (.new o) where
  object := ClosureObject.new_inv _
  knows := ClosureObject.new_knowsOnlySet
  addresses := by simp [FleetClient.new]
  captured := by simp [FleetClient.new, ClosureObject.new]
  built := ⟨rfl, rfl⟩
  place := by simp [FleetClient.new]
  counters := by simp [FleetClient.new]
  uncalled _ := huncalled
  suffix := List.suffix_rfl
  destroyed h := by simp [FleetClient.new, VirtualClient.dropOrder] at h

theorem address_half (i : ℕ) (kind : CounterKind) :
    CounterBoxes.address ⟨2 * i, 2 * i + 1⟩ kind / 2 = i := by
  cases kind with
  | echoes => exact Nat.mul_div_cancel_left i (by decide)
  | losses =>
      simp only [CounterBoxes.address]
      omega

/-- A client notices only what happens to its own two boxes. -/
theorem Owned.frame (h : Owned heap called i c)
    (hheap : ∀ a, a / 2 = i → a < heap.length → heap'[a]? = heap[a]?)
    (hcalled : ∀ t, called'.count (i, t) = called.count (i, t)) :
    Owned heap' called' i c where
  object := h.object
  knows := h.knows
  addresses := h.addresses
  captured := h.captured
  built := h.built
  place := h.place
  counters boxes hboxes kind := by
    have hold := h.counters boxes hboxes kind
    obtain rfl := h.place boxes hboxes
    rw [hheap _ (address_half i kind) (List.getElem?_eq_some_iff.mp hold).1, hcalled]
    exact hold
  uncalled hboxes t := by
    have hnone := List.count_eq_zero.mpr (h.uncalled hboxes t)
    rw [← hcalled] at hnone
    exact List.count_eq_zero.mp hnone
  suffix := h.suffix
  destroyed := h.destroyed

/-- A move of the C object that is no setter call leaves the rest as it is. -/
theorem Owned.withClient (h : Owned heap called i c) {a : ClosureAction ClientSlot}
    (hstep : c.client.step EntClient.closureApi a = some o)
    (hcalls : o.calls = c.client.calls)
    (hlength : o.table.heap.length = c.client.table.heap.length)
    (hdestroyed : .client ∉ c.fields → o.phase = .dropBoxes []) :
    Owned heap called i { c with client := o } where
  object := h.object.step EntClient.closureApi_lawful hstep
  knows := h.knows.step hstep
  addresses := by
    rw [hlength]
    exact h.addresses
  captured := by
    rw [hcalls]
    exact h.captured
  built := by
    have hbuilt := h.built
    unfold Built at hbuilt ⊢
    rw [hcalls]
    exact hbuilt
  place := h.place
  counters := h.counters
  uncalled := h.uncalled
  suffix := h.suffix
  destroyed := hdestroyed

theorem fields_cases (hsuffix : c.fields <:+ VirtualClient.dropOrder) :
    c.fields = VirtualClient.dropOrder ∨
      c.fields = [.counter .echoes, .counter .losses] ∨
      c.fields = [.counter .losses] ∨ c.fields = [] := by
  simpa [VirtualClient.dropOrder, List.suffix_cons_iff] using hsuffix

/-- As long as C can call, no field has been dropped. -/
theorem Owned.fields_of_canCall (h : Owned heap called i c) (hcan : c.client.CanCall) :
    c.fields = VirtualClient.dropOrder := by
  rcases fields_cases h.suffix with hfull | hrest
  · exact hfull
  · have hnot : .client ∉ c.fields := by
      rcases hrest with hrest | hrest | hrest <;> simp [hrest]
    rw [ClosureObject.CanCall, h.destroyed hnot] at hcan
    exact hcan.elim

/-- What C can call runs on the counter of its own client, and that is live. -/
theorem Owned.deref (h : Owned heap called i c) (hcan : c.client.CanCall)
    {pair : CallbackPair} (hread : pair ∈ c.client.table.read) :
    ∃ kind boxes, c.boxes = some boxes ∧ pair.trampoline = (CounterKind.setOn kind).trampoline ∧
      c.captured.lookup pair.userData = some (boxes.address kind) ∧
      heap[boxes.address kind]? =
        some ⟨UInt32.ofNat (called.count (i, kind.setOn.trampoline)), 0⟩ := by
  obtain ⟨call, hcall, rfl⟩ := h.knows pair (.inr hread)
  obtain ⟨kind, boxes, hset, hboxes, hlookup⟩ := h.captured call hcall
  refine ⟨kind, boxes, hboxes, congrArg SetOn.trampoline hset, hlookup, ?_⟩
  rw [h.counters boxes hboxes kind, h.fields_of_canCall hcan]
  cases kind <;> rfl

/-! ## Building a client -/

theorem Owned.boxing (h : Owned heap called i c) {opened : Bool}
    (hpc : c.pc = .boxing opened) (hplace : heap.length = 2 * i)
    (hfields : c.fields = VirtualClient.dropOrder) :
    Owned (heap ++ [⟨0, 0⟩, ⟨0, 0⟩]) called i { c with
      boxes := some ⟨heap.length, heap.length + 1⟩
      pc := if opened then .capturing .echoes else .pushed } := by
  have hbuilt := h.built
  rw [Built, hpc] at hbuilt
  obtain ⟨hboxes, hcalls⟩ := hbuilt
  refine ⟨h.object, h.knows, h.addresses, ?_, ?_, ?_, ?_, ?_, h.suffix, h.destroyed⟩
  · simp [hcalls]
  · cases opened <;> simp [Built, hcalls]
  · intro boxes heq
    obtain rfl := Option.some.inj heq
    rw [hplace]
  · intro boxes heq kind
    obtain rfl := Option.some.inj heq
    have hcount : called.count (i, kind.setOn.trampoline) = 0 :=
      List.count_eq_zero.mpr (h.uncalled hboxes _)
    simp only [hcount, hfields]
    cases kind <;>
      simp [CounterBoxes.address, VirtualClient.dropOrder]
  · intro heq
    contradiction

theorem mem_of_lookup {captured : List (ℕ × ℕ)} {box address : ℕ}
    (hlookup : captured.lookup box = some address) : (box, address) ∈ captured := by
  induction captured with
  | nil => contradiction
  | cons x captured ih =>
      by_cases hbox : box = x.1
      · subst hbox
        rw [List.lookup_cons, beq_self_eq_true, Option.some.injEq] at hlookup
        exact hlookup ▸ List.mem_cons_self
      · rw [List.lookup_cons, beq_false_of_ne hbox] at hlookup
        exact List.mem_cons_of_mem _ (ih hlookup)

/-- The new closure's box is not one that was captured for before. -/
theorem Owned.capturing (h : Owned heap called i c) {kind : CounterKind}
    {boxes : CounterBoxes} (hpc : c.pc = .capturing kind) (hboxes : c.boxes = some boxes)
    (hstep : c.client.step EntClient.closureApi (.beginSet kind.setOn) = some o) :
    Owned heap called i { c with
      client := o
      captured := (c.client.table.fresh, boxes.address kind) :: c.captured
      pc := .setting kind } := by
  have hbuilt := h.built
  rw [Built, hpc] at hbuilt
  have hobject := h.object.step EntClient.closureApi_lawful hstep
  have hknows := h.knows.step hstep
  obtain rfl := ClosureObject.beginSet_cases hstep
  refine ⟨hobject, hknows, ?_, ?_, ?_, h.place, h.counters, h.uncalled, h.suffix, ?_⟩
  · intro x hx
    simp only [CallbackTable.alloc, List.length_append, List.length_singleton]
    rcases List.mem_cons.mp hx with rfl | hx
    · exact Nat.lt_succ_self _
    · exact Nat.lt_succ_of_lt (h.addresses x hx)
  · intro call hcall
    rcases List.mem_append.mp hcall with hcall | hcall
    · obtain ⟨kind', boxes', hset, hboxes', hlookup⟩ := h.captured call hcall
      have hne : call.address ≠ c.client.table.fresh :=
        Nat.ne_of_lt (h.addresses _ (mem_of_lookup hlookup))
      refine ⟨kind', boxes', hset, hboxes', ?_⟩
      rw [List.lookup_cons, beq_false_of_ne hne]
      exact hlookup
    · obtain rfl := List.mem_singleton.mp hcall
      exact ⟨kind, boxes, rfl, hboxes, by rw [List.lookup_cons, beq_self_eq_true]⟩
  · refine ⟨hbuilt.1, by simp, ?_⟩
    rw [List.dropLast_concat]
    exact hbuilt.2
  · exact h.destroyed

theorem Owned.setStep (h : Owned heap called i c) {kind : CounterKind}
    (hpc : c.pc = .setting kind)
    (hstep : c.client.step EntClient.closureApi (.setStep (c.client.calls.length - 1)) =
      some o) :
    Owned heap called i { c with client := o } := by
  have hbuilt := h.built
  rw [Built, hpc] at hbuilt
  obtain ⟨hboxes, hne, hrest⟩ := hbuilt
  obtain ⟨call, rest, hcall, hcalls, hlength, hphase⟩ := ClosureObject.setStep_frame hstep
  refine ⟨h.object.step EntClient.closureApi_lawful hstep, h.knows.step hstep, ?_, ?_, ?_,
    h.place, h.counters, h.uncalled, h.suffix, ?_⟩
  · rw [hlength]
    exact h.addresses
  · intro d hd
    rw [hcalls] at hd
    rcases List.mem_or_eq_of_mem_set hd with hmem | rfl
    · exact h.captured d hmem
    · exact h.captured call (List.mem_of_getElem? hcall)
  · rw [Built, hpc]
    refine ⟨hboxes, ?_, ?_⟩
    · rw [hcalls]
      simpa using hne
    · rw [hcalls, List.dropLast_eq_take, List.length_set,
        List.take_set_of_le (Nat.le_refl _), ← List.dropLast_eq_take]
      exact hrest
  · rw [hphase]
    exact h.destroyed

theorem Owned.afterSetting (h : Owned heap called i c) {kind : CounterKind}
    {call : SetCall ClientSlot} (hpc : c.pc = .setting kind)
    (hlast : c.client.calls.getLast? = some call) (hdone : call.rest = []) :
    Owned heap called i { c with pc := .afterSetting kind } := by
  have hbuilt := h.built
  rw [Built, hpc] at hbuilt
  obtain ⟨hboxes, _, hrest⟩ := hbuilt
  have hall : ∀ d ∈ c.client.calls, d.rest = [] := by
    intro d hd
    rw [← List.dropLast_append_getLast? _ hlast, List.mem_append] at hd
    rcases hd with hd | hd
    · exact hrest d hd
    · exact List.mem_singleton.mp hd ▸ hdone
  exact {
    object := h.object
    knows := h.knows
    addresses := h.addresses
    captured := h.captured
    built := by cases kind <;> exact ⟨hboxes, hall⟩
    place := h.place
    counters := h.counters
    uncalled := h.uncalled
    suffix := h.suffix
    destroyed := h.destroyed }

/-! ## Dropping a client -/

theorem Owned.dropClient (h : Owned heap called i c) {rest : List Field}
    (hfields : c.fields = .client :: rest) (hphase : c.client.phase = .dropBoxes []) :
    Owned heap called i { c with fields := rest } where
  object := h.object
  knows := h.knows
  addresses := h.addresses
  captured := h.captured
  built := h.built
  place := h.place
  counters boxes hboxes kind := by
    have hold := h.counters boxes hboxes kind
    rw [hfields] at hold
    simpa using hold
  uncalled := h.uncalled
  suffix := (List.suffix_cons _ _).trans (hfields ▸ h.suffix)
  destroyed _ := hphase

theorem Owned.dropCounter (h : Owned heap called i c) {kind : CounterKind}
    {boxes : CounterBoxes} {rest : List Field} (hfields : c.fields = .counter kind :: rest)
    (hboxes : c.boxes = some boxes) :
    Owned (Fleet.free heap (boxes.address kind)) called i { c with fields := rest } where
  object := h.object
  knows := h.knows
  addresses := h.addresses
  captured := h.captured
  built := h.built
  place := h.place
  counters boxes' hboxes' kind' := by
    obtain rfl := Option.some.inj (hboxes.symm.trans hboxes')
    have hold := h.counters boxes hboxes kind'
    have hplace := h.place boxes hboxes
    have hcases := fields_cases h.suffix
    rw [hfields] at hold hcases
    rw [Fleet.free, List.getElem?_modify, hold]
    rcases hcases with hcases | hcases | hcases | hcases <;>
      simp only [VirtualClient.dropOrder, List.cons.injEq, reduceCtorEq, false_and] at hcases
    · obtain ⟨⟨⟩, rfl⟩ := hcases
      cases kind' <;> simp [hplace, CounterBoxes.address]
    · obtain ⟨⟨⟩, rfl⟩ := hcases
      cases kind' <;> simp [hplace, CounterBoxes.address]
  uncalled := h.uncalled
  suffix := (List.suffix_cons _ _).trans (hfields ▸ h.suffix)
  destroyed _ := by
    apply h.destroyed
    rcases fields_cases h.suffix with hcases | hcases | hcases | hcases
    · rw [hfields] at hcases
      simp [VirtualClient.dropOrder] at hcases
    · simp [hcases]
    · simp [hcases]
    · simp [hcases]

theorem Owned.boxes_of_pushed (h : Owned heap called i c) (hpc : c.pc = .pushed) :
    c.boxes ≠ none ∧ ∀ call ∈ c.client.calls, call.rest = [] := by
  have hbuilt := h.built
  rw [Built, hpc] at hbuilt
  exact hbuilt

end FleetClient

/-! ## The whole fleet -/

/-- The drop of `clients` has not come to the client `i`. -/
def FleetPhase.Before : FleetPhase → ℕ → Prop
  | .running, _ => True
  | .dropping k, i => k < i

namespace Fleet

open FleetClient

structure Inv (s : Fleet) : Prop where
  owned : ∀ i c, s.clients[i]? = some c → Owned s.heap s.called i c
  unboxed : ∀ i c, s.clients[i]? = some c → c.boxes = none →
    s.heap.length = 2 * i ∧ i + 1 = s.clients.length
  boxed : (∀ c ∈ s.clients, c.boxes ≠ none) → s.heap.length = 2 * s.clients.length
  building : ∀ i c, s.clients[i]? = some c → c.pc ≠ .pushed →
    i + 1 = s.clients.length ∧ s.phase = .running
  whole : ∀ i c, s.clients[i]? = some c → s.phase.Before i →
    c.fields = VirtualClient.dropOrder ∧ c.client.phase = .alive
  gone : ∀ k, s.phase = .dropping k →
    k ≤ s.clients.length ∧ ∀ i c, s.clients[i]? = some c → i < k → c.fields = []
  called : ∀ x ∈ s.called, x.1 < s.clients.length
  sound : s.faults = []

theorem start_inv : Inv start := by
  constructor <;> simp [start]

variable {s s' : Fleet} {i : ℕ} {c c' : FleetClient}

theorem getElem?_set_cases {clients : List FleetClient} {j : ℕ} {d : FleetClient}
    (hd : (clients.set i c')[j]? = some d) :
    j = i ∧ d = c' ∨ j ≠ i ∧ clients[j]? = some d := by
  by_cases hj : i = j
  · subst hj
    rw [List.getElem?_set_self'] at hd
    obtain ⟨_, _, rfl⟩ := Option.map_eq_some_iff.mp hd
    exact Or.inl ⟨rfl, rfl⟩
  · rw [List.getElem?_set_ne hj] at hd
    exact Or.inr ⟨Ne.symm hj, hd⟩

/-- A step that changes one client and its own two boxes. -/
theorem Inv.update (hs : Inv s) (hc : s.clients[i]? = some c) {heap : List AtomicBox}
    {called : List (ℕ × Trampoline)} (howned : Owned heap called i c')
    (hlength : heap.length = s.heap.length)
    (hheap : ∀ a, a / 2 ≠ i → heap[a]? = s.heap[a]?)
    (hcalled : ∀ j t, j ≠ i → called.count (j, t) = s.called.count (j, t))
    (hboxes : c'.boxes = c.boxes) (hpc : c'.pc ≠ .pushed → c.pc ≠ .pushed)
    (hwhole : s.phase.Before i →
      c'.fields = VirtualClient.dropOrder ∧ c'.client.phase = .alive)
    (hgone : c.fields = [] → c'.fields = []) :
    Inv { s with clients := s.clients.set i c', heap := heap, called := called } where
  owned j d hd := by
    rcases getElem?_set_cases hd with ⟨rfl, rfl⟩ | ⟨hj, hd⟩
    · exact howned
    · exact (hs.owned j d hd).frame (fun a ha _ => hheap a (ha ▸ hj))
        fun t => hcalled j t hj
  unboxed j d hd hnone := by
    rw [hlength, List.length_set]
    rcases getElem?_set_cases hd with ⟨rfl, rfl⟩ | ⟨_, hd⟩
    · exact hs.unboxed j c hc (hboxes ▸ hnone)
    · exact hs.unboxed j d hd hnone
  boxed hall := by
    rw [hlength, List.length_set]
    apply hs.boxed
    intro d hd
    obtain ⟨j, hj⟩ := List.mem_iff_getElem?.mp hd
    have hlt := (List.getElem?_eq_some_iff.mp hc).1
    by_cases hji : i = j
    · subst hji
      rw [hc, Option.some.injEq] at hj
      rw [← hj, ← hboxes]
      exact hall c' (List.mem_set hlt _)
    · apply hall d
      rw [← List.getElem?_set_ne hji (a := c')] at hj
      exact List.mem_of_getElem? hj
  building j d hd hne := by
    rw [List.length_set]
    rcases getElem?_set_cases hd with ⟨rfl, rfl⟩ | ⟨_, hd⟩
    · exact hs.building j c hc (hpc hne)
    · exact hs.building j d hd hne
  whole j d hd hbefore := by
    rcases getElem?_set_cases hd with ⟨rfl, rfl⟩ | ⟨_, hd⟩
    · exact hwhole hbefore
    · exact hs.whole j d hd hbefore
  gone k hk := by
    refine ⟨(List.length_set ..).symm ▸ (hs.gone k hk).1, fun j d hd hlt => ?_⟩
    rcases getElem?_set_cases hd with ⟨rfl, rfl⟩ | ⟨_, hd⟩
    · exact hgone ((hs.gone k hk).2 j c hc hlt)
    · exact (hs.gone k hk).2 j d hd hlt
  called x hx := by
    rw [List.length_set]
    by_cases hxi : x.1 = i
    · exact hxi ▸ (List.getElem?_eq_some_iff.mp hc).1
    · apply hs.called
      rw [← List.count_pos_iff, ← hcalled x.1 x.2 hxi]
      exact List.count_pos_iff.mpr hx
  sound := hs.sound

/-- A step that changes one client and none of the boxes. -/
theorem Inv.updateClient (hs : Inv s) (hc : s.clients[i]? = some c)
    (howned : Owned s.heap s.called i c') (hboxes : c'.boxes = c.boxes)
    (hpc : c'.pc ≠ .pushed → c.pc ≠ .pushed)
    (hwhole : s.phase.Before i →
      c'.fields = VirtualClient.dropOrder ∧ c'.client.phase = .alive)
    (hgone : c.fields = [] → c'.fields = []) :
    Inv { s with clients := s.clients.set i c' } :=
  hs.update hc howned rfl (fun _ _ => rfl) (fun _ _ _ => rfl) hboxes hpc hwhole hgone

theorem Inv.boxes_of_pushed (hs : Inv s) (hall : ∀ c ∈ s.clients, c.pc = .pushed) :
    ∀ c ∈ s.clients, c.boxes ≠ none := by
  intro c hc
  obtain ⟨i, hi⟩ := List.mem_iff_getElem?.mp hc
  exact ((hs.owned i c hi).boxes_of_pushed (hall c hc)).1

/-! ## Every step -/

theorem Inv.create (hs : Inv s) (o : Outcome) (hphase : s.phase = .running)
    (hall : ∀ c ∈ s.clients, c.pc = .pushed) :
    Inv { s with clients := s.clients ++ [.new o] } := by
  have hcases : ∀ j d, (s.clients ++ [FleetClient.new o])[j]? = some d →
      s.clients[j]? = some d ∨ j = s.clients.length ∧ d = .new o := by
    intro j d hd
    rw [List.getElem?_append] at hd
    split at hd
    next => exact Or.inl hd
    next hge =>
      obtain ⟨hlt, heq⟩ := List.getElem?_eq_some_iff.mp hd
      rw [List.length_singleton, Nat.lt_one_iff] at hlt
      refine Or.inr ⟨by omega, ?_⟩
      rw [← heq]
      simp [hlt]
  have hfull := hs.boxed (hs.boxes_of_pushed hall)
  refine ⟨?_, ?_, ?_, ?_, ?_, ?_, ?_, hs.sound⟩
  · intro j d hd
    rcases hcases j d hd with hd | ⟨rfl, rfl⟩
    · exact hs.owned j d hd
    · exact owned_new o fun t ht => Nat.lt_irrefl _ (hs.called _ ht)
  · intro j d hd hnone
    rcases hcases j d hd with hd | ⟨rfl, rfl⟩
    · exact absurd hnone (hs.boxes_of_pushed hall d (List.mem_of_getElem? hd))
    · exact ⟨hfull, by rw [List.length_append]; rfl⟩
  · intro hboxes
    exact absurd rfl (hboxes (.new o) (List.mem_append_right _ List.mem_cons_self))
  · intro j d hd hne
    rcases hcases j d hd with hd | ⟨rfl, rfl⟩
    · exact absurd (hall d (List.mem_of_getElem? hd)) hne
    · exact ⟨by rw [List.length_append]; rfl, hphase⟩
  · intro j d hd hbefore
    rcases hcases j d hd with hd | ⟨rfl, rfl⟩
    · exact hs.whole j d hd hbefore
    · exact ⟨rfl, rfl⟩
  · intro k hk
    rw [hphase] at hk
    contradiction
  · intro x hx
    have hlt := hs.called x hx
    rw [List.length_append]
    exact Nat.lt_succ_of_lt hlt

theorem Inv.boxing (hs : Inv s) (hc : s.clients[i]? = some c) (hphase : s.phase = .running)
    {opened : Bool} (hpc : c.pc = .boxing opened) :
    Inv { s with
      heap := s.heap ++ [⟨0, 0⟩, ⟨0, 0⟩]
      clients := s.clients.set i { c with
        boxes := some ⟨s.heap.length, s.heap.length + 1⟩
        pc := if opened then .capturing .echoes else .pushed } } := by
  have howned := hs.owned i c hc
  have hbuilt := howned.built
  rw [Built, hpc] at hbuilt
  obtain ⟨hplace, hlast⟩ := hs.unboxed i c hc hbuilt.1
  have hwhole := hs.whole i c hc (by rw [hphase]; trivial)
  refine ⟨?_, ?_, ?_, ?_, ?_, ?_, ?_, hs.sound⟩
  · intro j d hd
    rcases getElem?_set_cases hd with ⟨rfl, rfl⟩ | ⟨_, hd⟩
    · exact howned.boxing hpc hplace hwhole.1
    · exact (hs.owned j d hd).frame (fun a _ ha => List.getElem?_append_left ha)
        fun _ => rfl
  · intro j d hd hnone
    rcases getElem?_set_cases hd with ⟨_, rfl⟩ | ⟨hj, hd⟩
    · contradiction
    · have hother := (hs.unboxed j d hd hnone).2
      omega
  · intro _
    rw [List.length_append, List.length_set, ← hlast, hplace]
    rfl
  · intro j d hd hne
    rw [List.length_set]
    rcases getElem?_set_cases hd with ⟨rfl, rfl⟩ | ⟨_, hd⟩
    · exact ⟨hlast, hphase⟩
    · exact hs.building j d hd hne
  · intro j d hd hbefore
    rcases getElem?_set_cases hd with ⟨rfl, rfl⟩ | ⟨_, hd⟩
    · exact hwhole
    · exact hs.whole j d hd hbefore
  · intro k hk
    rw [hphase] at hk
    contradiction
  · intro x hx
    rw [List.length_set]
    exact hs.called x hx

theorem Inv.build (hs : Inv s) (hc : s.clients[i]? = some c) (hphase : s.phase = .running)
    (hbuild : s.build i c = some s') : Inv s' := by
  have howned := hs.owned i c hc
  have hwhole := hs.whole i c hc (by rw [hphase]; trivial)
  unfold Fleet.build at hbuild
  split at hbuild
  next opened hpc =>
    obtain rfl := Option.some.inj hbuild
    exact hs.boxing hc hphase hpc
  next kind hpc =>
    split at hbuild
    next boxes hboxes =>
      obtain ⟨o, hstep, rfl⟩ := Option.map_eq_some_iff.mp hbuild
      refine hs.updateClient hc (howned.capturing hpc hboxes hstep) rfl
        (fun _ => by simp [hpc]) (fun _ => ⟨hwhole.1, ?_⟩) id
      obtain rfl := ClosureObject.beginSet_cases hstep
      exact hwhole.2
    next => contradiction
  next kind hpc =>
    split at hbuild
    next call hlast =>
      split at hbuild
      next hdone =>
        obtain rfl := Option.some.inj hbuild
        exact hs.updateClient hc (howned.afterSetting hpc hlast hdone) rfl
          (fun _ => by simp [hpc]) (fun _ => hwhole) id
      next =>
        obtain ⟨o, hstep, rfl⟩ := Option.map_eq_some_iff.mp hbuild
        refine hs.updateClient hc (howned.setStep hpc hstep) rfl id
          (fun _ => ⟨hwhole.1, ?_⟩) id
        obtain ⟨_, _, _, _, _, hsame⟩ := ClosureObject.setStep_frame hstep
        exact hsame.trans hwhole.2
    next => contradiction
  next => contradiction

/-- The closure counts on the counter of its own client and finds it live. -/
theorem Inv.invoke (hs : Inv s) (hc : s.clients[i]? = some c) {pair : CallbackPair}
    (hinvoke : s.invoke i c pair = some s') : Inv s' := by
  have howned := hs.owned i c hc
  obtain ⟨o, hstep, rfl⟩ := Option.map_eq_some_iff.mp hinvoke
  obtain ⟨hcan, hread, ho⟩ := ClosureObject.invoke_cases hstep
  obtain ⟨kind, boxes, hboxes, htramp, hlookup, hbox⟩ := howned.deref hcan hread
  have hsame := howned.withClient hstep (by rw [ho]) (by rw [ho]; simp)
    (by rw [ho]; exact howned.destroyed)
  have hplace := howned.place boxes hboxes
  have hhalf : boxes.address kind / 2 = i := by
    rw [hplace]
    exact address_half i kind
  have hlt := (List.getElem?_eq_some_iff.mp hbox).1
  simp only [hlookup, Option.bind_some, fetchAdd, hbox]
  refine hs.update hc ?_ List.length_set ?_ ?_ rfl id ?_ id
  · refine ⟨hsame.object, hsame.knows, hsame.addresses, hsame.captured, hsame.built,
      hsame.place, ?_, ?_, hsame.suffix, hsame.destroyed⟩
    · intro boxes' hboxes' kind'
      obtain rfl := Option.some.inj (hboxes.symm.trans hboxes')
      have hold := howned.counters boxes hboxes kind'
      have hfields := howned.fields_of_canCall hcan
      by_cases hkind : kind' = kind
      · subst hkind
        have hmem : Field.counter kind' ∈ c.fields := by
          rw [hfields]
          cases kind' <;> simp [VirtualClient.dropOrder]
        simp only [List.getElem?_set_self hlt, htramp, List.count_append,
          List.count_singleton_self, UInt32.ofNat_add, hmem, if_true]
        rfl
      · have hne : boxes.address kind ≠ boxes.address kind' := by
          rw [hplace]
          cases kind <;> cases kind' <;> simp_all [CounterBoxes.address]
        have htramp' : (i, pair.trampoline) ≠ (i, kind'.setOn.trampoline) := by
          rw [htramp]
          cases kind <;> cases kind' <;>
            simp_all [CounterKind.setOn, EntClient.setOnDataReceived, EntClient.setOnPacketLost]
        simp only [List.getElem?_set_ne hne, List.count_append, List.count_singleton,
          beq_false_of_ne htramp']
        exact hold
    · intro hnone
      rw [hboxes] at hnone
      contradiction
  · intro a ha
    apply List.getElem?_set_ne
    rintro rfl
    exact ha hhalf
  · intro j t hj
    have hne : (i, pair.trampoline) ≠ (j, t) := fun heq => hj (congrArg Prod.fst heq).symm
    rw [List.count_append, List.count_singleton, beq_false_of_ne hne]
    rfl
  · intro hbefore
    rw [ho]
    exact hs.whole i c hc hbefore

theorem Inv.drop (hs : Inv s) {k : ℕ} (hc : s.clients[k]? = some c)
    (hphase : s.phase = .dropping k) (hdrop : s.drop k c = some s') : Inv s' := by
  have howned := hs.owned k c hc
  have hbefore : ¬ s.phase.Before k := by
    rw [hphase]
    exact Nat.lt_irrefl k
  unfold Fleet.drop at hdrop
  split at hdrop
  next hfields =>
    obtain rfl := Option.some.inj hdrop
    exact {
      owned := hs.owned
      unboxed := hs.unboxed
      boxed := hs.boxed
      building := fun j d hd hne => by
        have hrunning := (hs.building j d hd hne).2
        rw [hphase] at hrunning
        contradiction
      whole := fun j d hd hj => by
        apply hs.whole j d hd
        rw [hphase]
        exact Nat.lt_of_succ_lt hj
      gone := fun k' hk' => by
        obtain rfl := FleetPhase.dropping.inj hk'
        refine ⟨(List.getElem?_eq_some_iff.mp hc).1, fun j d hd hj => ?_⟩
        rcases Nat.lt_or_eq_of_le (Nat.le_of_lt_succ hj) with hlt | rfl
        · exact (hs.gone k hphase).2 j d hd hlt
        · rw [hc, Option.some.injEq] at hd
          exact hd ▸ hfields
      called := hs.called
      sound := hs.sound }
  next rest hfields =>
    have hmem : Field.client ∈ c.fields := by simp [hfields]
    split at hdrop
    next hdead =>
      obtain rfl := Option.some.inj hdrop
      exact hs.updateClient hc (howned.dropClient hfields hdead) rfl id
        (fun h => absurd h hbefore) fun h => by simp [h] at hfields
    next =>
      obtain ⟨o, hstep, rfl⟩ := Option.map_eq_some_iff.mp hdrop
      have ho := ClosureObject.beginDrop_cases hstep
      exact hs.updateClient hc
        (howned.withClient hstep (by rw [ho]) (by rw [ho]) fun h => absurd hmem h) rfl id
        (fun h => absurd h hbefore) id
    next =>
      obtain ⟨o, hstep, rfl⟩ := Option.map_eq_some_iff.mp hdrop
      obtain ⟨hcalls, hlength⟩ := ClosureObject.dropStep_frame hstep
      exact hs.updateClient hc
        (howned.withClient hstep hcalls hlength fun h => absurd hmem h) rfl id
        (fun h => absurd h hbefore) id
  next kind rest hfields =>
    split at hdrop
    next boxes hboxes =>
      obtain rfl := Option.some.inj hdrop
      have hhalf : boxes.address kind / 2 = k := by
        rw [howned.place boxes hboxes]
        exact address_half k kind
      refine hs.update hc (howned.dropCounter hfields hboxes) (List.length_modify ..)
        (fun a ha => ?_) (fun _ _ _ => rfl) rfl id (fun h => absurd h hbefore)
        fun h => by simp [h] at hfields
      rw [free, List.getElem?_modify_ne]
      exact fun heq => ha (heq ▸ hhalf)
    next => contradiction

theorem Inv.step {n : ℕ} (hs : Inv s) {a : FleetAction}
    (hstep : (machine n).step s a = some s') : Inv s' := by
  cases a with
  | create o =>
      simp only [machine, Fleet.step] at hstep
      split at hstep
      next hready =>
        obtain rfl := Option.some.inj hstep
        exact hs.create o hready.1 hready.2.2
      next => contradiction
  | build =>
      simp only [machine, Fleet.step] at hstep
      split at hstep
      next c hphase hlast =>
        rw [List.getLast?_eq_getElem?] at hlast
        exact hs.build hlast hphase hstep
      next => contradiction
  | readSlot i slot =>
      simp only [machine, Fleet.step] at hstep
      split at hstep
      next c hc =>
        obtain ⟨o, hread, rfl⟩ := Option.map_eq_some_iff.mp hstep
        have howned := hs.owned i c hc
        have ho := ClosureObject.readSlot_cases hread
        refine hs.updateClient hc (howned.withClient hread (by rw [ho]) (by rw [ho]; simp)
          (by rw [ho]; exact howned.destroyed)) rfl id (fun hbefore => ?_) id
        rw [ho]
        exact hs.whole i c hc hbefore
      next => contradiction
  | invoke i pair =>
      simp only [machine, Fleet.step] at hstep
      split at hstep
      next c hc => exact hs.invoke hc hstep
      next => contradiction
  | leave =>
      simp only [machine, Fleet.step] at hstep
      split at hstep
      next hready =>
        obtain rfl := Option.some.inj hstep
        exact {
          owned := hs.owned
          unboxed := hs.unboxed
          boxed := hs.boxed
          building := fun j d hd hne =>
            absurd (hready.2 d (List.mem_of_getElem? hd)) hne
          whole := fun j d hd _ => hs.whole j d hd (by rw [hready.1]; trivial)
          gone := fun k hk => by
            obtain rfl := FleetPhase.dropping.inj hk
            exact ⟨Nat.zero_le _, fun j d _ hj => absurd hj (Nat.not_lt_zero j)⟩
          called := hs.called
          sound := hs.sound }
      next => contradiction
  | drop =>
      simp only [machine, Fleet.step] at hstep
      split at hstep
      next k hphase =>
        split at hstep
        next c hc => exact hs.drop hc hphase hstep
        next => contradiction
      next => contradiction

theorem inv_of_reachable {n : ℕ} (hreach : Reachable n s) : Inv s :=
  hreach.invariant (fun _ _ _ hs hstep => hs.step hstep) start_inv

/-! ## The drop of `clients` -/

theorem Inv.pushed_of_dropping (hs : Inv s) {k : ℕ} (hphase : s.phase = .dropping k)
    (hc : s.clients[i]? = some c) : c.pc = .pushed := by
  by_contra hne
  have hrunning := (hs.building i c hc hne).2
  rw [hphase] at hrunning
  contradiction

/-- Nothing the drop needs is missing. -/
theorem Inv.drop_possible (hs : Inv s) {k : ℕ} (hphase : s.phase = .dropping k)
    (hc : s.clients[k]? = some c) : ∃ s', s.drop k c = some s' := by
  have howned := hs.owned k c hc
  obtain ⟨hboxes, hcalls⟩ := howned.boxes_of_pushed (hs.pushed_of_dropping hphase hc)
  unfold Fleet.drop
  split
  next => exact ⟨_, rfl⟩
  next =>
    split
    next => exact ⟨_, rfl⟩
    next halive => exact ⟨_, by simp only [ClosureObject.step, halive, if_pos hcalls]; rfl⟩
    next hdead halive =>
      cases hobject : c.client.phase with
      | alive => exact absurd hobject halive
      | destroying => exact ⟨_, by simp only [ClosureObject.step, hobject]; rfl⟩
      | clearing rest =>
          cases rest with
          | nil => exact ⟨_, by simp only [ClosureObject.step, hobject]; rfl⟩
          | cons slot rest => exact ⟨_, by simp only [ClosureObject.step, hobject]; rfl⟩
      | dropBoxes rest =>
          cases rest with
          | nil => exact absurd hobject hdead
          | cons address rest => exact ⟨_, by simp only [ClosureObject.step, hobject]; rfl⟩
  next =>
    obtain ⟨boxes, hboxes⟩ := Option.ne_none_iff_exists'.mp hboxes
    exact ⟨_, by rw [hboxes]⟩

/-- Once every client is dropped, each box has been freed exactly once. -/
theorem Inv.freed (hs : Inv s) (hphase : s.phase = .dropping s.clients.length) :
    (∀ c ∈ s.clients, c.client.phase = .dropBoxes []) ∧ ∀ box ∈ s.heap, box.frees = 1 := by
  have hgone : ∀ i (c : FleetClient), s.clients[i]? = some c → c.fields = [] :=
    fun i c hc => (hs.gone _ hphase).2 i c hc (List.getElem?_eq_some_iff.mp hc).1
  have hpushed : ∀ c ∈ s.clients, c.pc = .pushed := by
    intro c hc
    obtain ⟨i, hi⟩ := List.mem_iff_getElem?.mp hc
    exact hs.pushed_of_dropping hphase hi
  constructor
  · intro c hc
    obtain ⟨i, hi⟩ := List.mem_iff_getElem?.mp hc
    exact (hs.owned i c hi).destroyed (by simp [hgone i c hi])
  · intro box hbox
    obtain ⟨a, ha⟩ := List.mem_iff_getElem?.mp hbox
    have hlt := (List.getElem?_eq_some_iff.mp ha).1
    rw [hs.boxed (hs.boxes_of_pushed hpushed)] at hlt
    have hi : a / 2 < s.clients.length := by omega
    obtain ⟨c, hc⟩ : ∃ c, s.clients[a / 2]? = some c :=
      ⟨_, List.getElem?_eq_getElem hi⟩
    have howned := hs.owned (a / 2) c hc
    obtain ⟨boxes, hboxes⟩ := Option.ne_none_iff_exists'.mp
      (howned.boxes_of_pushed (hs.pushed_of_dropping hphase hc)).1
    have hcounter := howned.counters boxes hboxes
    have hplace := howned.place boxes hboxes
    obtain ⟨kind, hkind⟩ : ∃ kind, boxes.address kind = a := by
      rcases Nat.mod_two_eq_zero_or_one a with hmod | hmod
      · refine ⟨.echoes, ?_⟩
        simp only [hplace, CounterBoxes.address]
        omega
      · refine ⟨.losses, ?_⟩
        simp only [hplace, CounterBoxes.address]
        omega
    rw [← hkind, hcounter kind, Option.some.injEq, hgone _ c hc] at ha
    rw [← ha]
    rfl

/-- Whatever C calls and when, up to the return of each `destroy`: every closure finds the
counter it captured live, and no other client's counter notices; the drop of `clients` is
never stuck and frees every counter exactly once. -/
theorem reachable_safe {n : ℕ} (hreach : Reachable n s) :
    s.faults = [] ∧ (∀ c ∈ s.clients, c.client.table.faults = []) ∧
      (∀ i c boxes kind, s.clients[i]? = some c → c.boxes = some boxes →
        ∃ box, s.heap[boxes.address kind]? = some box ∧
          box.value = UInt32.ofNat (s.called.count (i, kind.setOn.trampoline)) ∧
          box.frees ≤ 1 ∧ (c.client.CanCall → box.frees = 0)) ∧
      (∀ k, s.phase = .dropping k → k < s.clients.length →
        ∃ s', (machine n).step s .drop = some s') ∧
      (s.phase = .dropping s.clients.length →
        (∀ c ∈ s.clients, c.client.phase = .dropBoxes []) ∧
          ∀ box ∈ s.heap, box.frees = 1) := by
  have hs := inv_of_reachable hreach
  refine ⟨hs.sound, ?_, ?_, ?_, hs.freed⟩
  · intro c hc
    obtain ⟨i, hi⟩ := List.mem_iff_getElem?.mp hc
    exact (hs.owned i c hi).object.sound
  · intro i c boxes kind hc hboxes
    have howned := hs.owned i c hc
    refine ⟨_, howned.counters boxes hboxes kind, rfl, ?_, fun hcan => ?_⟩
    · dsimp only
      split <;> decide
    · rw [howned.fields_of_canCall hcan]
      cases kind <;> rfl
  · intro k hphase hk
    obtain ⟨s', hdrop⟩ := hs.drop_possible hphase (List.getElem?_eq_getElem hk)
    refine ⟨s', ?_⟩
    simp only [machine, Fleet.step, hphase, List.getElem?_eq_getElem hk]
    exact hdrop

/-- A callback that C began before its slot was cleared still counts while `destroy` runs. -/
theorem reachable_safe_lateCall :
    ∃ s, (machine 1).run start
        ([.create (.opened 3)] ++ List.replicate 9 .build ++
          [.readSlot 0 .dataReceived, .invoke 0 ⟨.cliDataCb, 0⟩, .leave] ++
          List.replicate 10 .drop ++ [.invoke 0 ⟨.cliDataCb, 0⟩] ++
          List.replicate 7 .drop) = some s ∧
      s.heap.map AtomicBox.value = [2, 0] ∧ s.faults = [] ∧
      ∀ box ∈ s.heap, box.frees = 1 := by
  obtain ⟨s, hrun, hvalue, hphase⟩ : ∃ s, (machine 1).run start
        ([.create (.opened 3)] ++ List.replicate 9 .build ++
          [.readSlot 0 .dataReceived, .invoke 0 ⟨.cliDataCb, 0⟩, .leave] ++
          List.replicate 10 .drop ++ [.invoke 0 ⟨.cliDataCb, 0⟩] ++
          List.replicate 7 .drop) = some s ∧
      s.heap.map AtomicBox.value = [2, 0] ∧ s.phase = .dropping s.clients.length :=
    ⟨_, rfl, rfl, rfl⟩
  obtain ⟨hfaults, _, _, _, hfreed⟩ := reachable_safe ⟨_, hrun⟩
  exact ⟨s, hrun, hvalue, hfaults, (hfreed hphase).2⟩

end Fleet

end Stress

end EntanglementRs
