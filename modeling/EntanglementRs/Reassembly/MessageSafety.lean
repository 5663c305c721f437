import EntanglementRs.Reassembly.MessageInvariant

/-!
# Memory safety of the reassembly callbacks

Over a whole run in which the library keeps to the protocol: no access misses
its block, every message that was completed is read once and as it was put
together, and what was allocated is released exactly as far as buffers were
given back.
-/

namespace EntanglementRs

open Transition Ownership

/-! ## Every block has an owner -/

namespace Reassembly

variable {T : Type} [DecidableEq T] {s s' : Reassembly T} {a : BufAction T}

/-- Every block was returned by `alloc_buf` or is about to be. -/
def Owned (s : Reassembly T) : Prop :=
  ∀ buf : Buffer, buf.index < (s.heap.blocks buf.ptr).length →
    buf ∈ s.issued ∨ ∃ t, (s.threads t).allocating = some buf

theorem allocating_kept (hmove : Move s a s') {t : T} {buf : Buffer}
    (hbuf : (s.threads t).allocating = some buf) :
    buf ∈ s'.issued ∨ (s'.threads t).allocating = some buf := by
  by_cases hactor : t = actor a
  · subst hactor
    cases hmove with
    | lockAlloc t b maxSize hpc | insert t b maxSize hpc =>
        right
        rw [actor, hpc] at hbuf
        rw [actor, goto_self]
        exact hbuf
    | returnAlloc t b hpc =>
        left
        rw [actor, hpc] at hbuf
        obtain rfl := Option.some.inj hbuf
        exact List.mem_append_right _ (List.mem_singleton_self b)
    | callAlloc t _ hpc | allocate t _ _ hpc | callFree t _ hpc | lockFree t _ hpc
    | removeSome t _ _ hpc | removeNone t _ hpc | dropVec t _ _ hpc
    | returnFree t _ hpc =>
        rw [actor, hpc] at hbuf
        contradiction
  · rw [threads_step hmove hactor]
    exact Or.inr hbuf

theorem owned_step (hmove : Move s a s') (hs : s.Inv) (howned : s.Owned) : s'.Owned := by
  intro buf hindex
  have hkept : buf.index < (s.heap.blocks buf.ptr).length →
      buf ∈ s'.issued ∨ ∃ t, (s'.threads t).allocating = some buf := by
    intro hold
    cases howned buf hold with
    | inl hissued => exact Or.inl (issued_mono hmove hissued)
    | inr hallocating =>
        obtain ⟨t, ht⟩ := hallocating
        exact (allocating_kept hmove ht).imp_right fun h => ⟨t, h⟩
  cases blocks_step hmove hs buf.ptr with
  | inl hsame => exact hkept (hsame ▸ hindex)
  | inr hgrown =>
      obtain ⟨⟨t, rfl⟩, _, hlength⟩ := hgrown
      by_cases hold : buf.index < (s.heap.blocks buf.ptr).length
      · exact hkept hold
      · -- the block that the allocator has just handed out
        refine Or.inr ⟨t, ?_⟩
        cases hmove with
        | allocate =>
            rw [goto_self]
            have hnew : buf.index = (s.heap.blocks buf.ptr).length := by omega
            rw [← hnew]
            rfl

end Reassembly

namespace Messages

variable {T : Type} [DecidableEq T] {s s' : Messages T} {a : MessageAction T}

theorem Move.pool_cases (hmove : Move s a s') :
    s'.pool = s.pool ∨ ∃ b, Reassembly.Move s.pool b s'.pool := by
  cases hmove with
  | callAlloc _ _ pool _ hpool | allocate _ _ _ pool _ hpool | inner _ pool _ hpool
  | release _ pool hpool | read _ _ _ pool _ _ hpool | readFault _ _ _ pool _ _ hpool
  | failed _ _ pool _ hpool => exact Or.inr ⟨_, hpool⟩
  | fragment | fragmentFault | complete => exact Or.inl rfl

theorem owned_of_run {as : List (MessageAction T)} (hrun : machine.run start as = some s) :
    s.pool.Owned := by
  have hboth : s.pool.Inv ∧ s.pool.Owned := by
    refine Machine.run_invariant (I := fun s : Messages T => s.pool.Inv ∧ s.pool.Owned)
      ?_ ⟨Reassembly.start_inv, ?_⟩ hrun
    · rintro q b q' ⟨hinv, howned⟩ hstep
      cases (step_move hstep).pool_cases with
      | inl hsame =>
          rw [hsame]
          exact ⟨hinv, howned⟩
      | inr hmoved =>
          obtain ⟨b, hpool⟩ := hmoved
          exact ⟨Reassembly.step_inv hpool hinv, Reassembly.owned_step hpool hinv howned⟩
    · intro buf hindex
      simp [start, Reassembly.start, Heap.empty] at hindex
  exact hboth.2

/-! ## Completed messages are read -/

/-- A completed message is read by the callback it was given to, and no other is. -/
structure Reads (s : Messages T) : Prop where
  waiting : ∀ t buf n, s.calls t = .completing buf n → (buf, n) ∈ s.completed
  delivered : ∀ d ∈ s.delivered, (d.buf, d.totalSize) ∈ s.completed
  completed : ∀ c ∈ s.completed, (∃ t, s.calls t = .completing c.1 c.2) ∨
    ∃ d ∈ s.delivered, d.buf = c.1 ∧ d.totalSize = c.2

theorem enter_kept {t u : T} {c d : MessageCall} (hu : s.calls u = d)
    (hne : s.calls t ≠ d) : (s.enter t c).calls u = d := by
  rw [enter_calls, if_neg]
  · exact hu
  · rintro rfl
    exact hne hu

/-- Entering a call that reads nothing, from one that reads nothing. -/
theorem Reads.enter (hreads : s.Reads) {t : T} {c : MessageCall}
    (hbefore : ∀ buf n, s.calls t ≠ .completing buf n)
    (hafter : ∀ buf n, c ≠ .completing buf n) : (s.enter t c).Reads where
  waiting u buf n hu := by
    rw [enter_calls] at hu
    split at hu
    next => exact absurd hu (hafter buf n)
    next => exact hreads.waiting u buf n hu
  delivered := hreads.delivered
  completed m hm := by
    apply (hreads.completed m hm).imp_left
    rintro ⟨u, hu⟩
    exact ⟨u, enter_kept hu (hbefore m.1 m.2)⟩

theorem Reads.complete_step (hreads : s.Reads) {t : T} {buf : Buffer} {n : ℕ}
    (hcall : s.calls t = .outside) :
    Reads ({ s with
      ended := s.ended ++ [buf]
      completed := s.completed ++ [(buf, n)] }.enter t (.completing buf n)) where
  waiting u buf' n' hu := by
    rw [enter_calls] at hu
    apply List.mem_append.mpr
    split at hu
    next =>
      obtain ⟨rfl, rfl⟩ := MessageCall.completing.inj hu
      exact Or.inr (List.mem_singleton_self _)
    next => exact Or.inl (hreads.waiting u buf' n' hu)
  delivered d hd := List.mem_append_left _ (hreads.delivered d hd)
  completed m hm := by
    cases List.mem_append.mp hm with
    | inl hold =>
        apply (hreads.completed m hold).imp_left
        rintro ⟨u, hu⟩
        exact ⟨u, enter_kept hu (by simp [hcall])⟩
    | inr hnew =>
        rw [List.mem_singleton.mp hnew]
        exact Or.inl ⟨t, by rw [enter_calls, if_pos rfl]⟩

theorem Reads.read_step (hreads : s.Reads) {t : T} {buf : Buffer} {n : ℕ}
    (hcall : s.calls t = .completing buf n) (pool : Reassembly T) (bytes : List UInt8) :
    Reads ({ s with
      pool := pool
      delivered := s.delivered ++ [Delivered.mk buf n bytes] : Messages T }.enter t
        (.freeing buf)) where
  waiting u buf' n' hu := by
    rw [enter_calls] at hu
    split at hu
    next => contradiction
    next => exact hreads.waiting u buf' n' hu
  delivered d hd := by
    cases List.mem_append.mp hd with
    | inl hold => exact hreads.delivered d hold
    | inr hnew =>
        rw [List.mem_singleton.mp hnew]
        exact hreads.waiting t buf n hcall
  completed m hm := by
    cases hreads.completed m hm with
    | inl hwaiting =>
        obtain ⟨u, hu⟩ := hwaiting
        by_cases hsame : m = (buf, n)
        · rw [hsame]
          exact Or.inr ⟨_, List.mem_append_right _ (List.mem_singleton_self _), rfl, rfl⟩
        · refine Or.inl ⟨u, enter_kept hu ?_⟩
          intro hother
          obtain ⟨hbuf, hn⟩ := MessageCall.completing.inj (hcall.symm.trans hother)
          exact hsame (Prod.ext hbuf.symm hn.symm)
    | inr hread =>
        obtain ⟨d, hd, hboth⟩ := hread
        exact Or.inr ⟨d, List.mem_append_left _ hd, hboth⟩

theorem Reads.step (hreads : s.Reads) (hs : s.Inv) (hmove : Move s a s') : s'.Reads := by
  cases hmove with
  | callAlloc | allocate | inner | fragment | fragmentFault =>
      exact ⟨hreads.waiting, hreads.delivered, hreads.completed⟩
  | release t pool hpool =>
      have hreads' : Reads { s with pool := pool } :=
        ⟨hreads.waiting, hreads.delivered, hreads.completed⟩
      apply hreads'.enter _ (by simp)
      intro buf n hcall
      have hidle := (hs.completing t buf n hcall).1
      cases hpool <;> simp_all
  | complete t buf totalSize hcall hidle => exact hreads.complete_step hcall
  | read t buf totalSize pool hcall hcovers hpool => exact hreads.read_step hcall _ _
  | readFault t buf totalSize pool hcall hcovers hpool =>
      obtain ⟨_, cap, hlive, hn⟩ := hs.completing t buf totalSize hcall
      rw [covers_of_live hlive hn] at hcovers
      contradiction
  | failed t buf pool hcall hpool =>
      have hreads' : Reads { s with pool := pool, ended := s.ended ++ [buf] } :=
        ⟨hreads.waiting, hreads.delivered, hreads.completed⟩
      exact hreads'.enter (by simp [hcall]) (by simp)

/-! ## Runs -/

/-- What the program may count on while the library keeps to the protocol. -/
structure Safe (s : Messages T) : Prop where
  noFault : s.faults = []
  exact : ∀ d ∈ s.delivered,
    d.bytes = (s.assembled d.buf).take d.totalSize ∧ d.bytes.length = d.totalSize
  once : (s.delivered.map Delivered.buf).Nodup
  onlyCompleted : ∀ d ∈ s.delivered, (d.buf, d.totalSize) ∈ s.completed
  allCompleted : ∀ c ∈ s.completed, (∃ t, s.calls t = .completing c.1 c.2) ∨
    ∃ d ∈ s.delivered, d.buf = c.1 ∧ d.totalSize = c.2
  openLive : ∀ buf, s.Open buf → ∃ cap, s.pool.Live buf cap
  endedFreed : ∀ buf ∈ s.ended,
    (∃ t, (s.calls t).buf? = some buf) ∨ s.pool.Freed buf

theorem inv_of_follows {as : List (MessageAction T)}
    (hfollows : machine.Follows Protocol (start : Messages T) as)
    (hrun : machine.run start as = some s) : s.Inv ∧ s.Reads := by
  refine hfollows.invariant (I := fun s : Messages T => s.Inv ∧ s.Reads) ?_
    ⟨start_inv, ?_⟩ hrun
  · rintro q b q' ⟨hinv, hreads⟩ hprotocol hstep
    have hmove := step_move hstep
    exact ⟨step_inv hinv hprotocol hmove, hreads.step hinv hmove⟩
  · constructor <;> simp [start]

/-- Whatever the threads interleave, no access of a callback or of the library
misses the live block of its message. -/
theorem followed_safe {as : List (MessageAction T)}
    (hfollows : machine.Follows Protocol (start : Messages T) as)
    (hrun : machine.run start as = some s) : s.Safe := by
  obtain ⟨hinv, hreads⟩ := inv_of_follows hfollows hrun
  exact
    { noFault := hinv.faults
      exact := fun d hd => (hinv.delivered d hd).2
      once := hinv.once
      onlyCompleted := hreads.delivered
      allCompleted := hreads.completed
      openLive := hinv.live
      endedFreed := by
        intro buf hended
        by_cases hcall : ∃ t, (s.calls t).buf? = some buf
        · exact Or.inl hcall
        · exact Or.inr (hinv.settled buf hended fun t ht => hcall ⟨t, ht⟩) }

/-- While thread 1 still frees the buffer of the first message, thread 0 gets one
at the same address for the second; a third message is given up. -/
def reuse : List (MessageAction (Fin 2)) :=
  [.pool (.callAlloc 0 4), .pool (.allocate 0 4096), .pool (.acquire 0),
    .pool (.insert 0), .pool (.release 0),
    .fragment ⟨4096, 0⟩ 2 [3, 4], .fragment ⟨4096, 0⟩ 0 [1, 2],
    .complete 1 ⟨4096, 0⟩ 3, .read 1, .pool (.acquire 1), .pool (.remove 1),
    .pool (.callAlloc 0 2), .pool (.dropVec 1), .pool (.allocate 0 4096),
    .pool (.release 1), .pool (.acquire 0), .pool (.insert 0), .pool (.release 0),
    .fragment ⟨4096, 1⟩ 1 [9], .complete 1 ⟨4096, 1⟩ 2, .read 1,
    .pool (.callAlloc 0 8), .pool (.allocate 0 8192), .pool (.acquire 0),
    .pool (.insert 0), .pool (.release 0), .pool (.acquire 1), .pool (.remove 1),
    .pool (.dropVec 1), .pool (.release 1),
    .failed 0 ⟨8192, 0⟩, .pool (.acquire 0), .pool (.remove 0), .pool (.dropVec 0),
    .pool (.release 0)]

theorem followed_safe_reuse :
    ∃ s : Messages (Fin 2), machine.run start reuse = some s ∧
      s.delivered.map Delivered.bytes = [[1, 2, 3], [0, 9]] ∧ s.Safe := by
  have hrun : ∃ s : Messages (Fin 2),
      (machine.restrict Protocol).run start reuse = some s ∧
        s.delivered.map Delivered.bytes = [[1, 2, 3], [0, 9]] := ⟨_, rfl, rfl⟩
  obtain ⟨s, hs, hbytes⟩ := hrun
  obtain ⟨hfollows, hrun⟩ := Machine.run_restrict hs
  exact ⟨s, hrun, hbytes, followed_safe hfollows hrun⟩

/-- No thread is inside a callback. -/
def Quiescent (s : Messages T) : Prop :=
  ∀ t, s.calls t = .outside ∧ s.pool.threads t = .idle

/-- Between callbacks: what was released, what the map still knows. -/
structure Accounted (s : Messages T) : Prop where
  blocks : ∀ p i b, (s.pool.heap.blocks p)[i]? = some b →
    b.releases = if (⟨p, i⟩ : Buffer) ∈ s.ended then [b.size] else []
  stray : s.pool.heap.stray = []
  entries : ∀ p cap, s.pool.map p = some cap ↔
    ∃ buf, s.Open buf ∧ buf.ptr = p ∧ s.maxSize? buf = some cap
  leakFree : (∀ p, s.pool.heap.live? p = none) ↔ ∀ buf ∈ s.pool.issued, buf ∈ s.ended

omit [DecidableEq T] in
theorem Quiescent.issued (hquiet : s.Quiescent) (howned : s.pool.Owned) {p : Ptr} {i : ℕ}
    {b : Block ℕ} (hb : (s.pool.heap.blocks p)[i]? = some b) :
    (⟨p, i⟩ : Buffer) ∈ s.pool.issued := by
  cases howned ⟨p, i⟩ (List.getElem?_eq_some_iff.mp hb).1 with
  | inl hissued => exact hissued
  | inr hallocating =>
      obtain ⟨t, ht⟩ := hallocating
      rw [(hquiet t).2] at ht
      contradiction

omit [DecidableEq T] in
/-- Between callbacks the live blocks are those of the open buffers. -/
theorem Quiescent.live_iff (hquiet : s.Quiescent) (hs : s.Inv) (howned : s.pool.Owned)
    (p : Ptr) (cap : ℕ) :
    s.pool.heap.live? p = some cap ↔
      ∃ buf, s.Open buf ∧ buf.ptr = p ∧ s.maxSize? buf = some cap := by
  constructor
  · intro hlive
    have hblock := Heap.live?_eq_some_iff.mp hlive
    rw [List.getLast?_eq_getElem?] at hblock
    have hnewest : s.pool.Live ⟨p, (s.pool.heap.blocks p).length - 1⟩ cap := hblock
    refine ⟨⟨p, (s.pool.heap.blocks p).length - 1⟩, ⟨hquiet.issued howned hblock, ?_⟩,
      rfl, maxSize?_of_live hnewest⟩
    intro hended
    apply hnewest.not_freed
    apply hs.settled _ hended
    intro t ht
    rw [(hquiet t).1] at ht
    contradiction
  · rintro ⟨buf, hopen, rfl, hsize⟩
    obtain ⟨cap', hlive⟩ := hs.live buf hopen
    rw [maxSize?_of_live hlive] at hsize
    rw [← hsize]
    exact hs.pool.custody.once.live?_of_getElem? hlive

/-- Between callbacks every block ever allocated has been released, once and
with its capacity, exactly if its buffer was given back. -/
theorem quiescent_accounted {as : List (MessageAction T)}
    (hfollows : machine.Follows Protocol (start : Messages T) as)
    (hrun : machine.run start as = some s) (hquiet : s.Quiescent) : s.Accounted := by
  obtain ⟨hinv, _⟩ := inv_of_follows hfollows hrun
  have howned := owned_of_run hrun
  have hlive := hquiet.live_iff hinv howned
  constructor
  · intro p i b hb
    split
    next hended =>
      have hfreed : s.pool.Freed ⟨p, i⟩ := by
        apply hinv.settled _ hended
        intro t ht
        rw [(hquiet t).1] at ht
        contradiction
      obtain ⟨cap, hcap⟩ := hfreed
      obtain rfl := Option.some.inj (hb.symm.trans hcap)
      rfl
    next hended =>
      obtain ⟨cap, hopen⟩ := hinv.live _ ⟨hquiet.issued howned hb, hended⟩
      obtain rfl := Option.some.inj (hb.symm.trans hopen)
      rfl
  · exact hinv.pool.custody.once.stray
  · intro p cap
    rw [hinv.pool.entries (fun t => (hquiet t).2) p cap,
      hinv.pool.custody.once.mem_iff]
    exact hlive p cap
  · constructor
    · intro hnone buf hissued
      by_contra hended
      obtain ⟨cap, hcap⟩ := hinv.live buf ⟨hissued, hended⟩
      have hsome := hinv.pool.custody.once.live?_of_getElem? hcap
      rw [hnone] at hsome
      contradiction
    · intro hended p
      cases hsome : s.pool.heap.live? p with
      | none => rfl
      | some cap =>
          obtain ⟨buf, hopen, _⟩ := (hlive p cap).mp hsome
          exact absurd (hended buf hopen.1) hopen.2

theorem quiescent_accounted_reuse :
    ∃ s : Messages (Fin 2), machine.run start reuse = some s ∧
      (∀ p, s.pool.heap.live? p = none) ∧ s.Accounted := by
  have hrun : ∃ s : Messages (Fin 2),
      (machine.restrict Protocol).run start reuse = some s ∧
        (∀ t, s.calls t = .outside ∧ s.pool.threads t = .idle) ∧
        s.pool.issued = [⟨4096, 0⟩, ⟨4096, 1⟩, ⟨8192, 0⟩] ∧
        s.ended = [⟨4096, 0⟩, ⟨4096, 1⟩, ⟨8192, 0⟩] :=
    ⟨_, rfl, by decide, rfl, rfl⟩
  obtain ⟨s, hs, hquiet, hissued, hended⟩ := hrun
  obtain ⟨hfollows, hrun⟩ := Machine.run_restrict hs
  have haccounted := quiescent_accounted hfollows hrun hquiet
  refine ⟨s, hrun, haccounted.leakFree.mpr ?_, haccounted⟩
  rw [hissued, hended]
  exact fun _ => id

end Messages

end EntanglementRs
