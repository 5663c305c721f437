import EntanglementRs.Reassembly.Messages

/-!
# Where the buffer of a message is

A buffer is open, in the hands of one callback, or freed, and the live block of
an address belongs to one message: steps of other threads that allocate and free
meanwhile change none of this, as long as the library keeps to the protocol.
-/

namespace EntanglementRs

open Transition Ownership

namespace Reassembly

variable {T : Type} [DecidableEq T] {s s' : Reassembly T} {a : BufAction T}

/-- The block of the buffer has not been released. -/
def Live (s : Reassembly T) (buf : Buffer) (cap : ℕ) : Prop :=
  (s.heap.blocks buf.ptr)[buf.index]? = some ⟨cap, []⟩

/-- The thread is inside a call of `free_buf` with this pointer. -/
def Freeing (s : Reassembly T) (t : T) (ptr : Ptr) : Prop :=
  s.threads t = .freeCalled ptr ∨ s.threads t = .freeLocked ptr ∨
    (∃ cap, s.threads t = .freeRemoved ptr cap) ∨ s.threads t = .freeDone ptr

omit [DecidableEq T] in
/-- The live block of an address belongs to one buffer. -/
theorem Inv.live_unique (hs : s.Inv) {buf buf' : Buffer} {cap cap' : ℕ}
    (hlive : s.Live buf cap) (hlive' : s.Live buf' cap') (hptr : buf.ptr = buf'.ptr) :
    buf = buf' := by
  have hindex := hs.custody.once.newest_of_getElem? hlive
  have hindex' := hs.custody.once.newest_of_getElem? hlive'
  rw [hptr] at hindex
  exact Buffer.ext hptr (by omega)

theorem live_step (hmove : Move s a s') (hs : s.Inv) {buf : Buffer} {cap : ℕ}
    (hlive : s.Live buf cap) :
    s'.Live buf cap ∨
      ∃ t cap', a = .dropVec t ∧ s.threads t = .freeRemoved buf.ptr cap' := by
  cases hmove with
  | allocate t ptr maxSize hpc hdead => exact Or.inl (Heap.alloc_kept hlive)
  | dropVec t ptr cap' hpc =>
      by_cases hptr : buf.ptr = ptr
      · subst hptr
        exact Or.inr ⟨t, cap', rfl, hpc⟩
      · apply Or.inl
        show ((s.heap.dealloc ptr cap').blocks buf.ptr)[buf.index]? = _
        rw [Heap.dealloc_getElem? (hs.live_of_removed hpc),
          if_neg fun hboth => hptr hboth.1]
        exact hlive
  | callAlloc | callFree | lockAlloc | lockFree | insert | removeSome | removeNone
  | returnAlloc | returnFree => exact Or.inl hlive

/-- Only the allocator makes a block live. -/
theorem live_of_step (hmove : Move s a s') (hs : s.Inv) {buf : Buffer} {cap : ℕ}
    (hlive : s'.Live buf cap) :
    s.Live buf cap ∨
      ∃ t, a = .allocate t buf.ptr ∧ buf.index = (s.heap.blocks buf.ptr).length ∧
        s.threads t = .allocCalled cap := by
  cases hmove with
  | allocate t ptr maxSize hpc hdead =>
      have hnew : (if buf.ptr = ptr ∧ buf.index = (s.heap.blocks ptr).length
          then some ⟨maxSize, []⟩ else (s.heap.blocks buf.ptr)[buf.index]?) =
            some (⟨cap, []⟩ : Block ℕ) := by
        rw [← Heap.alloc_getElem?]
        exact hlive
      split at hnew
      next hsame =>
        obtain ⟨rfl, hindex⟩ := hsame
        obtain rfl : maxSize = cap := by simpa using hnew
        exact Or.inr ⟨t, rfl, hindex, hpc⟩
      next => exact Or.inl hnew
  | dropVec t ptr cap' hpc =>
      have hblock := Heap.dealloc_getElem? (q := buf.ptr) (i := buf.index)
        (hs.live_of_removed hpc) cap'
      have hlive : ((s.heap.dealloc ptr cap').blocks buf.ptr)[buf.index]? =
          some ⟨cap, []⟩ := hlive
      rw [hblock] at hlive
      split at hlive
      next => simp at hlive
      next => exact Or.inl hlive
  | callAlloc | callFree | lockAlloc | lockFree | insert | removeSome | removeNone
  | returnAlloc | returnFree => exact Or.inl hlive

/-- A thread enters `free_buf` with a call and leaves it with a return. -/
theorem freeing_step (hmove : Move s a s') (hcall : ∀ t ptr, a ≠ .callFree t ptr)
    {t : T} {ptr : Ptr} (hfreeing : s'.Freeing t ptr) :
    s.Freeing t ptr ∧ a ≠ .release t := by
  unfold Freeing at hfreeing ⊢
  cases hmove with
  | callFree u p _ => exact absurd rfl (hcall u p)
  | callAlloc u | allocate u | lockAlloc u | lockFree u | insert u | removeSome u
  | removeNone u | dropVec u | returnAlloc u | returnFree u =>
      rw [goto_threads] at hfreeing
      by_cases hu : t = u
      · subst hu
        simp_all
      · simp only [if_neg hu] at hfreeing
        refine ⟨hfreeing, ?_⟩
        simp [Ne.symm hu]

theorem freeing_callFree {t u : T} {ptr ptr' : Ptr} (hmove : Move s (.callFree t ptr) s')
    (hfreeing : s'.Freeing u ptr') :
    u = t ∧ ptr = ptr' ∨ u ≠ t ∧ s.Freeing u ptr' := by
  unfold Freeing at hfreeing ⊢
  cases hmove with
  | callFree _ _ hpc =>
      rw [goto_threads] at hfreeing
      split at hfreeing
      next hu => exact Or.inl ⟨hu, by simpa using hfreeing⟩
      next hu => exact Or.inr ⟨hu, hfreeing⟩

/-- The thread that a step of the pool belongs to. -/
def actor : BufAction T → T
  | .callAlloc t _ => t
  | .allocate t _ => t
  | .callFree t _ => t
  | .acquire t => t
  | .insert t => t
  | .remove t => t
  | .dropVec t => t
  | .release t => t

theorem threads_step (hmove : Move s a s') {t : T} (hother : t ≠ actor a) :
    s'.threads t = s.threads t := by
  cases hmove <;> exact (goto_threads _ _ _ _).trans (if_neg hother)

omit [DecidableEq T] in
/-- The block of an `alloc_buf` in progress is live. -/
theorem Inv.allocating_live (hs : s.Inv) {t : T} {buf : Buffer}
    (hbuf : (s.threads t).allocating = some buf) :
    ∃ cap, s.Live buf cap := by
  obtain ⟨k, cap, hheld, _⟩ := hs.allocating_held hbuf
  have hlive := Heap.live?_eq_some_iff.mp (hs.custody.live k buf.ptr cap hheld)
  refine ⟨cap, ?_⟩
  rw [List.getLast?_eq_getElem?, ← hs.newest t buf hbuf, Nat.add_sub_cancel] at hlive
  exact hlive

omit [DecidableEq T] in
theorem Live.not_freed {buf : Buffer} {cap : ℕ} (hlive : s.Live buf cap) :
    ¬ s.Freed buf := by
  rintro ⟨cap', hfreed⟩
  rw [Live, hfreed] at hlive
  simp at hlive

end Reassembly

/-- The buffer a callback was called with. -/
def MessageCall.buf? : MessageCall → Option Buffer
  | .outside => none
  | .completing buf _ => some buf
  | .freeing buf => some buf

namespace Messages

open Reassembly (Freeing actor)

variable {T : Type} [DecidableEq T] {s s' : Messages T} {a : MessageAction T}

structure Inv (s : Messages T) : Prop where
  pool : s.pool.Inv
  issued : ∀ buf ∈ s.ended, buf ∈ s.pool.issued
  live : ∀ buf, s.Open buf → ∃ cap, s.pool.Live buf cap
  ended : ∀ t buf, (s.calls t).buf? = some buf → buf ∈ s.ended
  sole : ∀ t u buf, (s.calls t).buf? = some buf → (s.calls u).buf? = some buf → t = u
  completing : ∀ t buf n, s.calls t = .completing buf n →
    s.pool.threads t = .idle ∧ ∃ cap, s.pool.Live buf cap ∧ n ≤ cap
  freeing : ∀ t buf, s.calls t = .freeing buf →
    (∃ cap, s.pool.Pending t buf cap) ∨
      s.pool.Freed buf ∧ s.pool.threads t = .freeDone buf.ptr
  called : ∀ t ptr, s.pool.Freeing t ptr →
    ∃ buf, s.calls t = .freeing buf ∧ buf.ptr = ptr
  settled : ∀ buf ∈ s.ended, (∀ t, (s.calls t).buf? ≠ some buf) → s.pool.Freed buf
  contents : ∀ buf cap, s.pool.Live buf cap →
    s.memory buf.ptr = s.assembled buf ∧ (s.assembled buf).length = cap
  delivered : ∀ d ∈ s.delivered, d.buf ∈ s.ended ∧
    d.bytes = (s.assembled d.buf).take d.totalSize ∧ d.bytes.length = d.totalSize
  unread : ∀ t buf n, s.calls t = .completing buf n → ∀ d ∈ s.delivered, d.buf ≠ buf
  once : (s.delivered.map Delivered.buf).Nodup
  faults : s.faults = []

omit [DecidableEq T] in
theorem start_inv : Inv (start : Messages T) where
  pool := Reassembly.start_inv
  issued buf hbuf := by simp [start] at hbuf
  live buf hopen := by simp [start, Open, Reassembly.start] at hopen
  ended t buf hcall := by simp [start, MessageCall.buf?] at hcall
  sole t u buf hcall := by simp [start, MessageCall.buf?] at hcall
  completing t buf n hcall := by simp [start] at hcall
  freeing t buf hcall := by simp [start] at hcall
  called t ptr hfreeing := by simp [start, Freeing, Reassembly.start] at hfreeing
  settled buf hbuf := by simp [start] at hbuf
  contents buf cap hlive := by
    simp [start, Reassembly.Live, Reassembly.start, Heap.empty] at hlive
  delivered d hd := by simp [start] at hd
  unread t buf n hcall := by simp [start] at hcall
  once := List.nodup_nil
  faults := rfl

omit [DecidableEq T] in
theorem covers_of_live {buf : Buffer} {cap bound : ℕ} (hlive : s.pool.Live buf cap)
    (hbound : bound ≤ cap) :
    s.covers buf bound = true := by
  unfold Reassembly.Live at hlive
  simp [covers, hlive, hbound]

omit [DecidableEq T] in
theorem live_of_covers {buf : Buffer} {bound : ℕ} (hcovers : s.covers buf bound = true) :
    ∃ cap, s.pool.Live buf cap ∧ bound ≤ cap := by
  unfold covers at hcovers
  split at hcovers
  next cap hblock => exact ⟨cap, hblock, of_decide_eq_true hcovers⟩
  next => contradiction

omit [DecidableEq T] in
/-- The size of a live block is the size it was asked for with. -/
theorem maxSize?_of_live {buf : Buffer} {cap : ℕ} (hlive : s.pool.Live buf cap) :
    s.maxSize? buf = some cap := by
  unfold Reassembly.Live at hlive
  simp [maxSize?, hlive]

omit [DecidableEq T] in
theorem Inv.open_room (hs : s.Inv) {buf : Buffer} {bound : ℕ} (hopen : s.Open buf)
    (hroom : ∃ n ∈ s.maxSize? buf, bound ≤ n) :
    ∃ cap, s.pool.Live buf cap ∧ bound ≤ cap := by
  obtain ⟨n, hn, hbound⟩ := hroom
  obtain ⟨cap, hlive⟩ := hs.live buf hopen
  rw [maxSize?_of_live hlive, Option.mem_some_iff] at hn
  exact ⟨cap, hlive, hn ▸ hbound⟩

/-! ## Steps of the pool -/

variable {b : BufAction T} {pool : Reassembly T}

omit [DecidableEq T] in
/-- A `Vec` about to be dropped is that of the callback on the same thread. -/
theorem Inv.released_by (hs : s.Inv) {u : T} {buf : Buffer} {cap cap' : ℕ}
    (hpc : s.pool.threads u = .freeRemoved buf.ptr cap')
    (hlive : s.pool.Live buf cap) :
    s.calls u = .freeing buf := by
  obtain ⟨buf', hcall, hptr⟩ := hs.called u buf.ptr (Or.inr (Or.inr (Or.inl ⟨cap', hpc⟩)))
  cases hs.freeing u buf' hcall with
  | inl hpending =>
      obtain ⟨cap'', hpending⟩ := hpending
      rw [hs.pool.live_unique hlive hpending.live hptr.symm]
      exact hcall
  | inr hdone =>
      rw [hdone.2] at hpc
      contradiction

/-- A live block stays live unless the callback it was given to frees it. -/
theorem Inv.live_kept (hs : s.Inv) (hpool : Reassembly.Move s.pool b pool)
    {buf : Buffer} {cap : ℕ} (hlive : s.pool.Live buf cap) :
    pool.Live buf cap ∨ ∃ t, b = .dropVec t ∧ s.calls t = .freeing buf := by
  cases Reassembly.live_step hpool hs.pool hlive with
  | inl hstill => exact Or.inl hstill
  | inr hdropped =>
      obtain ⟨t, cap', hb, hpc⟩ := hdropped
      exact Or.inr ⟨t, hb, hs.released_by hpc hlive⟩

theorem Inv.live_pool (hs : s.Inv) (hpool : Reassembly.Move s.pool b pool) {buf : Buffer}
    (hissued : buf ∈ pool.issued) (hended : buf ∉ s.ended) :
    ∃ cap, pool.Live buf cap := by
  have hbefore : ∃ cap, s.pool.Live buf cap := by
    cases Reassembly.issued_step hpool with
    | inl hsame => exact hs.live buf ⟨hsame ▸ hissued, hended⟩
    | inr hgrown =>
        obtain ⟨t, new, _, hpc, hall⟩ := hgrown
        rw [hall, List.mem_append, List.mem_singleton] at hissued
        cases hissued with
        | inl hold => exact hs.live buf ⟨hold, hended⟩
        | inr hnew =>
            subst hnew
            exact hs.pool.allocating_live (t := t) (by rw [hpc]; rfl)
  obtain ⟨cap, hlive⟩ := hbefore
  cases hs.live_kept hpool hlive with
  | inl hstill => exact ⟨cap, hstill⟩
  | inr hfreed =>
      obtain ⟨t, _, hcall⟩ := hfreed
      exact absurd (hs.ended t buf (by rw [hcall]; rfl)) hended

theorem Inv.completing_pool (hs : s.Inv) (hpool : Reassembly.Move s.pool b pool) {t : T}
    {buf : Buffer} {n : ℕ} (hcall : s.calls t = .completing buf n) (hother : t ≠ actor b) :
    pool.threads t = .idle ∧ ∃ cap, pool.Live buf cap ∧ n ≤ cap := by
  obtain ⟨hidle, cap, hlive, hn⟩ := hs.completing t buf n hcall
  refine ⟨(Reassembly.threads_step hpool hother).trans hidle, cap, ?_, hn⟩
  cases hs.live_kept hpool hlive with
  | inl hstill => exact hstill
  | inr hfreed =>
      obtain ⟨u, _, hfree⟩ := hfreed
      obtain rfl := hs.sole t u buf (by rw [hcall]; rfl) (by rw [hfree]; rfl)
      rw [hcall] at hfree
      contradiction

theorem Inv.freeing_pool (hs : s.Inv) (hpool : Reassembly.Move s.pool b pool) {t : T}
    {buf : Buffer} (hcall : s.calls t = .freeing buf) (hrelease : b ≠ .release t) :
    (∃ cap, pool.Pending t buf cap) ∨
      pool.Freed buf ∧ pool.threads t = .freeDone buf.ptr := by
  have hended := hs.ended t buf (by rw [hcall]; rfl)
  cases hs.freeing t buf hcall with
  | inl hpending =>
      obtain ⟨cap, hpending⟩ := hpending
      cases Reassembly.pending_step hpool hs.pool (hs.issued buf hended) hpending with
      | inl hstill => exact Or.inl ⟨cap, hstill⟩
      | inr hfreed =>
          -- only this thread's own `drop` can have freed it
          cases hs.live_kept hpool hpending.live with
          | inl hlive => exact absurd hfreed hlive.not_freed
          | inr hdropped =>
              obtain ⟨u, rfl, hfree⟩ := hdropped
              obtain rfl := hs.sole t u buf (by rw [hcall]; rfl) (by rw [hfree]; rfl)
              refine Or.inr ⟨hfreed, ?_⟩
              cases hpool with
              | dropVec _ ptr cap' hpc =>
                  obtain ⟨buf', hcall', hptr⟩ :=
                    hs.called t ptr (Or.inr (Or.inr (Or.inl ⟨cap', hpc⟩)))
                  rw [hcall] at hcall'
                  obtain rfl := MessageCall.freeing.inj hcall'
                  rw [hptr, Reassembly.goto_self]
  | inr hdone =>
      obtain ⟨hfreed, hpc⟩ := hdone
      refine Or.inr ⟨Reassembly.freed_step hpool hs.pool hfreed, ?_⟩
      rw [Reassembly.threads_step hpool, hpc]
      rintro rfl
      cases hpool <;> simp_all [actor]

theorem Inv.contents_pool (hs : s.Inv) (hpool : Reassembly.Move s.pool b pool)
    (hallocate : ∀ t ptr, b ≠ .allocate t ptr) {buf : Buffer} {cap : ℕ}
    (hlive : pool.Live buf cap) :
    s.memory buf.ptr = s.assembled buf ∧ (s.assembled buf).length = cap := by
  cases Reassembly.live_of_step hpool hs.pool hlive with
  | inl hold => exact hs.contents buf cap hold
  | inr hnew =>
      obtain ⟨t, hb, _⟩ := hnew
      exact absurd hb (hallocate t buf.ptr)

/-! ## The invariant is kept -/

theorem Inv.settled_pool (hs : s.Inv) (hpool : Reassembly.Move s.pool b pool)
    {buf : Buffer} (hended : buf ∈ s.ended) (hnone : ∀ t, (s.calls t).buf? ≠ some buf) :
    pool.Freed buf :=
  Reassembly.freed_step hpool hs.pool (hs.settled buf hended hnone)

theorem Inv.called_pool (hs : s.Inv) (hpool : Reassembly.Move s.pool b pool)
    (hcall : ∀ t ptr, b ≠ .callFree t ptr) {t : T} {ptr : Ptr}
    (hfreeing : pool.Freeing t ptr) :
    (∃ buf, s.calls t = .freeing buf ∧ buf.ptr = ptr) ∧ b ≠ .release t := by
  obtain ⟨hbefore, hrelease⟩ := Reassembly.freeing_step hpool hcall hfreeing
  exact ⟨hs.called t ptr hbefore, hrelease⟩

/-- A step of the pool between the calls and returns of callbacks, with what
the allocator writes. -/
theorem Inv.pool_step (hs : s.Inv) (hpool : Reassembly.Move s.pool b pool)
    (hcall : ∀ t ptr, b ≠ .callFree t ptr) (hreturn : ∀ t, b ≠ .release t)
    (hactor : ∀ buf n, s.calls (actor b) ≠ .completing buf n)
    {memory : Ptr → List UInt8} {assembled : Buffer → List UInt8}
    (hcontents : ∀ buf cap, pool.Live buf cap →
      memory buf.ptr = assembled buf ∧ (assembled buf).length = cap)
    (hsame : ∀ buf ∈ s.ended, assembled buf = s.assembled buf) :
    Inv { s with pool := pool, memory := memory, assembled := assembled } where
  pool := Reassembly.step_inv hpool hs.pool
  issued buf hbuf := Reassembly.issued_mono hpool (hs.issued buf hbuf)
  live buf hopen := hs.live_pool hpool hopen.1 hopen.2
  ended := hs.ended
  sole := hs.sole
  completing t buf n hcompleting := by
    apply hs.completing_pool hpool hcompleting
    rintro rfl
    exact hactor buf n hcompleting
  freeing t buf hfreeing := hs.freeing_pool hpool hfreeing (hreturn t)
  called t ptr hfreeing := (hs.called_pool hpool hcall hfreeing).1
  settled buf hended hnone := hs.settled_pool hpool hended hnone
  contents := hcontents
  delivered d hd := by
    obtain ⟨hended, hbytes, hlength⟩ := hs.delivered d hd
    refine ⟨hended, ?_, hlength⟩
    rw [hbytes]
    exact congrArg (List.take d.totalSize) (hsame d.buf hended).symm
  unread := hs.unread
  once := hs.once
  faults := hs.faults

/-- The allocator hands out a buffer of zeros. -/
theorem Inv.allocate_step (hs : s.Inv) {t : T} {ptr : Ptr} {maxSize : ℕ}
    (hpc : s.pool.threads t = .allocCalled maxSize)
    (hpool : Reassembly.Move s.pool (.allocate t ptr) pool) :
    Inv { s with
      pool := pool
      memory := Function.update s.memory ptr (List.replicate maxSize 0)
      assembled := Function.update s.assembled
        ⟨ptr, (s.pool.heap.blocks ptr).length⟩ (List.replicate maxSize 0) } := by
  have hdead : s.pool.heap.live? ptr = none := by
    cases hpool with
    | allocate _ _ _ _ hdead => exact hdead
  apply hs.pool_step hpool (by simp) (by simp)
  · intro buf n hcompleting
    have hidle := (hs.completing t buf n hcompleting).1
    rw [hpc] at hidle
    contradiction
  · intro buf cap hlive
    cases Reassembly.live_of_step hpool hs.pool hlive with
    | inl hold =>
        -- no block was live at the address, so this one is elsewhere
        have hptr : buf.ptr ≠ ptr := by
          rintro rfl
          rw [hs.pool.custody.once.live?_of_getElem? hold] at hdead
          contradiction
        have hbuf : buf ≠ ⟨ptr, (s.pool.heap.blocks ptr).length⟩ :=
          fun heq => hptr (congrArg Buffer.ptr heq)
        simpa only [Function.update_of_ne hptr, Function.update_of_ne hbuf]
          using hs.contents buf cap hold
    | inr hnew =>
        obtain ⟨u, hsame, hindex, hcalled⟩ := hnew
        obtain ⟨rfl, rfl⟩ := BufAction.allocate.inj hsame
        rw [hpc] at hcalled
        obtain rfl := CallState.allocCalled.inj hcalled
        have hbuf : buf = ⟨buf.ptr, (s.pool.heap.blocks buf.ptr).length⟩ :=
          Buffer.ext rfl hindex
        rw [← hbuf, Function.update_self, Function.update_self]
        exact ⟨rfl, List.length_replicate⟩
  · intro buf hended
    have hknown := hs.pool.known buf (hs.issued buf hended)
    rw [Function.update_of_ne]
    rintro rfl
    exact Nat.lt_irrefl _ hknown

theorem Inv.release_step (hs : s.Inv) {t : T}
    (hpool : Reassembly.Move s.pool (.release t) pool) :
    Inv ({ s with pool := pool }.enter t .outside) where
  pool := Reassembly.step_inv hpool hs.pool
  issued buf hbuf := Reassembly.issued_mono hpool (hs.issued buf hbuf)
  live buf hopen := hs.live_pool hpool hopen.1 hopen.2
  ended u buf hcall := by
    rw [enter_calls] at hcall
    split at hcall
    next => contradiction
    next => exact hs.ended u buf hcall
  sole u v buf hu hv := by
    rw [enter_calls] at hu hv
    split at hu
    next => contradiction
    next =>
      split at hv
      next => contradiction
      next => exact hs.sole u v buf hu hv
  completing u buf n hcall := by
    rw [enter_calls] at hcall
    split at hcall
    next => contradiction
    next hu => exact hs.completing_pool hpool hcall hu
  freeing u buf hcall := by
    rw [enter_calls] at hcall
    split at hcall
    next => contradiction
    next hu => exact hs.freeing_pool hpool hcall fun heq => hu (BufAction.release.inj heq).symm
  called u ptr hfreeing := by
    obtain ⟨hcall, hrelease⟩ := hs.called_pool hpool (by simp) hfreeing
    rw [enter_calls, if_neg]
    · exact hcall
    · rintro rfl
      exact hrelease rfl
  settled buf hended hnone := by
    by_cases hcall : s.calls t = .freeing buf
    · -- the callback returns from `free_buf`
      apply Reassembly.freed_step hpool hs.pool
      cases hs.freeing t buf hcall with
      | inl hpending =>
          obtain ⟨cap, hpending⟩ := hpending
          have hthread := hpending.thread
          cases hpool <;> simp_all
      | inr hdone => exact hdone.1
    · refine hs.settled_pool hpool hended fun u hu => ?_
      by_cases hut : u = t
      · subst hut
        cases hcallu : s.calls u with
        | outside =>
            rw [hcallu] at hu
            contradiction
        | completing buf' n =>
            have hidle := (hs.completing u buf' n hcallu).1
            cases hpool <;> simp_all
        | freeing buf' =>
            rw [hcallu] at hu
            obtain rfl := Option.some.inj hu
            exact hcall hcallu
      · apply hnone u
        rw [enter_calls, if_neg hut]
        exact hu
  contents buf cap hlive := hs.contents_pool hpool (by simp) hlive
  delivered := hs.delivered
  unread u buf n hcall := by
    rw [enter_calls] at hcall
    split at hcall
    next => contradiction
    next => exact hs.unread u buf n hcall
  once := hs.once
  faults := hs.faults

omit [DecidableEq T] in
/-- A fragment changes the buffer of its message and no other. -/
theorem Inv.fragment_step (hs : s.Inv) {buf : Buffer} {offset : ℕ} {bytes : List UInt8}
    (hended : buf ∉ s.ended) {cap : ℕ} (hlive : s.pool.Live buf cap)
    (hroom : offset + bytes.length ≤ cap) :
    Inv { s with
      memory := Function.update s.memory buf.ptr
        (overwrite (s.memory buf.ptr) offset bytes)
      assembled := Function.update s.assembled buf
        (overwrite (s.assembled buf) offset bytes) } :=
  { hs with
    contents := by
      intro buf' cap' hlive'
      dsimp only at hlive' ⊢
      by_cases hbuf : buf' = buf
      · subst hbuf
        obtain ⟨hmemory, hlength⟩ := hs.contents buf' cap hlive
        have hcap : cap' = cap := by
          have hboth := hlive'.symm.trans hlive
          simpa using hboth
        rw [Function.update_self, Function.update_self, hmemory, hcap]
        refine ⟨rfl, ?_⟩
        rw [overwrite_length (by omega)]
        exact hlength
      · have hptr : buf'.ptr ≠ buf.ptr :=
          fun heq => hbuf (hs.pool.live_unique hlive' hlive heq)
        rw [Function.update_of_ne hptr, Function.update_of_ne hbuf]
        exact hs.contents buf' cap' hlive'
    delivered := by
      intro d hd
      obtain ⟨hgiven, hbytes⟩ := hs.delivered d hd
      refine ⟨hgiven, ?_⟩
      dsimp only
      rw [Function.update_of_ne]
      · exact hbytes
      · rintro rfl
        exact hended hgiven }

theorem Inv.complete_step (hs : s.Inv) {t : T} {buf : Buffer} {n cap : ℕ}
    (hcall : s.calls t = .outside) (hidle : s.pool.threads t = .idle)
    (hopen : s.Open buf) (hlive : s.pool.Live buf cap) (hn : n ≤ cap)
    (completed : List (Buffer × ℕ)) :
    Inv ({ s with ended := s.ended ++ [buf], completed := completed }.enter t
      (.completing buf n)) where
  pool := hs.pool
  issued buf' hbuf := by
    cases List.mem_append.mp hbuf with
    | inl hold => exact hs.issued buf' hold
    | inr hnew =>
        rw [List.mem_singleton.mp hnew]
        exact hopen.1
  live buf' hopen' := by
    apply hs.live buf'
    exact ⟨hopen'.1, fun hold => hopen'.2 (List.mem_append_left _ hold)⟩
  ended u buf' hu := by
    rw [enter_calls] at hu
    apply List.mem_append.mpr
    split at hu
    next => exact Or.inr (List.mem_singleton.mpr (Option.some.inj hu).symm)
    next => exact Or.inl (hs.ended u buf' hu)
  sole u v buf' hu hv := by
    rw [enter_calls] at hu hv
    -- no callback has the buffer that is given back now
    have hfresh : ∀ w, (s.calls w).buf? ≠ some buf :=
      fun w hw => hopen.2 (hs.ended w buf hw)
    split at hu <;> split at hv
    next hut hvt => rw [hut, hvt]
    next =>
      rw [← Option.some.inj hu] at hv
      exact absurd hv (hfresh v)
    next =>
      rw [← Option.some.inj hv] at hu
      exact absurd hu (hfresh u)
    next => exact hs.sole u v buf' hu hv
  completing u buf' n' hu := by
    rw [enter_calls] at hu
    split at hu
    next hut =>
      obtain ⟨rfl, rfl⟩ := MessageCall.completing.inj hu
      subst hut
      exact ⟨hidle, cap, hlive, hn⟩
    next => exact hs.completing u buf' n' hu
  freeing u buf' hu := by
    rw [enter_calls] at hu
    split at hu
    next => contradiction
    next => exact hs.freeing u buf' hu
  called u ptr hfreeing := by
    rw [enter_calls, if_neg]
    · exact hs.called u ptr hfreeing
    · rintro rfl
      obtain ⟨buf', hfree, _⟩ := hs.called u ptr hfreeing
      rw [hcall] at hfree
      contradiction
  settled buf' hbuf hnone := by
    have hother : buf' ≠ buf := by
      rintro rfl
      apply hnone t
      rw [enter_calls, if_pos rfl]
      rfl
    have hold : buf' ∈ s.ended := by
      simpa [hother] using List.mem_append.mp hbuf
    apply hs.settled buf' hold
    intro u hu
    by_cases hut : u = t
    · rw [hut, hcall] at hu
      contradiction
    · apply hnone u
      rw [enter_calls, if_neg hut]
      exact hu
  contents := hs.contents
  delivered d hd := (hs.delivered d hd).imp_left (List.mem_append_left _)
  unread u buf' n' hu d hd := by
    rw [enter_calls] at hu
    split at hu
    next =>
      rintro rfl
      obtain ⟨rfl, _⟩ := MessageCall.completing.inj hu
      exact hopen.2 (hs.delivered d hd).1
    next => exact hs.unread u buf' n' hu d hd
  once := hs.once
  faults := hs.faults

/-- The call of `free_buf` that ends a callback. -/
theorem Inv.callFree_step (hs : s.Inv) {t : T} {buf : Buffer} {n : ℕ}
    (hcall : s.calls t = .completing buf n)
    (hpool : Reassembly.Move s.pool (.callFree t buf.ptr) pool) :
    Inv ({ s with pool := pool }.enter t (.freeing buf)) where
  pool := Reassembly.step_inv hpool hs.pool
  issued buf' hbuf := Reassembly.issued_mono hpool (hs.issued buf' hbuf)
  live buf' hopen := hs.live_pool hpool hopen.1 hopen.2
  ended u buf' hu := by
    rw [enter_calls] at hu
    split at hu
    next hut =>
      apply hs.ended t buf'
      rw [hcall]
      exact hu
    next => exact hs.ended u buf' hu
  sole u v buf' hu hv := by
    rw [enter_calls] at hu hv
    have hbuf : ∀ w, (if w = t then MessageCall.freeing buf else s.calls w).buf? =
        (s.calls w).buf? := by
      intro w
      split
      next hw =>
        rw [hw, hcall]
        rfl
      next => rfl
    rw [hbuf] at hu hv
    exact hs.sole u v buf' hu hv
  completing u buf' n' hu := by
    rw [enter_calls] at hu
    split at hu
    next => contradiction
    next hut => exact hs.completing_pool hpool hu hut
  freeing u buf' hu := by
    rw [enter_calls] at hu
    split at hu
    next hut =>
      subst hut
      obtain rfl := MessageCall.freeing.inj hu
      obtain ⟨_, cap, hlive, _⟩ := hs.completing u buf n hcall
      refine Or.inl ⟨cap, ?_⟩
      cases hpool with
      | callFree _ _ hpc => exact ⟨hlive, Or.inl (Reassembly.goto_self _ _ _)⟩
    next => exact hs.freeing_pool hpool hu (by simp)
  called u ptr hfreeing := by
    rw [enter_calls]
    cases Reassembly.freeing_callFree hpool hfreeing with
    | inl hself =>
        rw [if_pos hself.1]
        exact ⟨buf, rfl, hself.2⟩
    | inr hother =>
        rw [if_neg hother.1]
        exact hs.called u ptr hother.2
  settled buf' hbuf hnone := by
    apply hs.settled_pool hpool hbuf
    intro u hu
    apply hnone u
    rw [enter_calls]
    split
    next hut =>
      rw [hut, hcall] at hu
      exact hu
    next => exact hu
  contents buf' cap hlive := hs.contents_pool hpool (by simp) hlive
  delivered := hs.delivered
  unread u buf' n' hu := by
    rw [enter_calls] at hu
    split at hu
    next => contradiction
    next => exact hs.unread u buf' n' hu
  once := hs.once
  faults := hs.faults

omit [DecidableEq T] in
theorem Inv.deliver (hs : s.Inv) {t : T} {buf : Buffer} {n : ℕ}
    (hcall : s.calls t = .freeing buf) (hunread : ∀ d ∈ s.delivered, d.buf ≠ buf)
    (hlength : n ≤ (s.assembled buf).length) :
    Inv { s with
      delivered := s.delivered ++ [⟨buf, n, (s.assembled buf).take n⟩] } :=
  { hs with
    delivered := by
      intro d hd
      cases List.mem_append.mp hd with
      | inl hold => exact hs.delivered d hold
      | inr hnew =>
          rw [List.mem_singleton.mp hnew]
          exact ⟨hs.ended t buf (by rw [hcall]; rfl), rfl,
            List.length_take_of_le hlength⟩
    unread := by
      intro u buf' n' hu d hd
      cases List.mem_append.mp hd with
      | inl hold => exact hs.unread u buf' n' hu d hold
      | inr hnew =>
          rw [List.mem_singleton.mp hnew]
          rintro rfl
          obtain rfl := hs.sole t u buf (by rw [hcall]; rfl) (by rw [hu]; rfl)
          rw [hcall] at hu
          contradiction
    once := by
      rw [List.map_append, List.nodup_append]
      refine ⟨hs.once, by simp, ?_⟩
      intro b hb b' hb'
      obtain ⟨d, hd, rfl⟩ := List.mem_map.mp hb
      rw [List.map_singleton, List.mem_singleton] at hb'
      rw [hb']
      exact hunread d hd }

theorem step_inv (hs : s.Inv) (hprotocol : s.Protocol a) (hmove : Move s a s') :
    s'.Inv := by
  cases hmove with
  | callAlloc t maxSize pool hcall hpool =>
      apply hs.pool_step hpool (by simp) (by simp)
      · intro buf n hcompleting
        rw [actor, hcall] at hcompleting
        contradiction
      · intro buf cap hlive
        exact hs.contents_pool hpool (by simp) hlive
      · intro buf _
        rfl
  | allocate t ptr maxSize pool hpc hpool => exact hs.allocate_step hpc hpool
  | inner b pool hinner hpool =>
      apply hs.pool_step hpool
      · rintro t ptr rfl
        exact hinner
      · rintro t rfl
        exact hinner
      · intro buf n hcompleting
        have hidle := (hs.completing (actor b) buf n hcompleting).1
        cases hpool <;> simp_all [actor, Inner]
      · intro buf cap hlive
        apply hs.contents_pool hpool _ hlive
        rintro t ptr rfl
        exact hinner
      · intro buf _
        rfl
  | release t pool hpool => exact hs.release_step hpool
  | fragment buf offset bytes hcovers =>
      obtain ⟨cap, hlive, hroom⟩ := live_of_covers hcovers
      exact hs.fragment_step hprotocol.1.2 hlive hroom
  | fragmentFault buf offset bytes hcovers =>
      obtain ⟨cap, hlive, hroom⟩ := hs.open_room hprotocol.1 hprotocol.2
      rw [covers_of_live hlive hroom] at hcovers
      contradiction
  | complete t buf totalSize hcall hidle =>
      obtain ⟨cap, hlive, hroom⟩ := hs.open_room hprotocol.1 hprotocol.2
      exact hs.complete_step hcall hidle hprotocol.1 hlive hroom _
  | read t buf totalSize pool hcall hcovers hpool =>
      obtain ⟨_, cap, hlive, hn⟩ := hs.completing t buf totalSize hcall
      obtain ⟨hmemory, hlength⟩ := hs.contents buf cap hlive
      rw [hmemory]
      exact (hs.callFree_step hcall hpool).deliver (by rw [enter_calls, if_pos rfl])
        (hs.unread t buf totalSize hcall) (hlength ▸ hn)
  | readFault t buf totalSize pool hcall hcovers hpool =>
      obtain ⟨_, cap, hlive, hn⟩ := hs.completing t buf totalSize hcall
      rw [covers_of_live hlive hn] at hcovers
      contradiction
  | failed t buf pool hcall hpool =>
      obtain ⟨cap, hlive⟩ := hs.live buf hprotocol
      have hidle : s.pool.threads t = .idle := by
        cases hpool with
        | callFree _ _ hpc => exact hpc
      -- as a completion that reads nothing
      have hgiven := hs.complete_step hcall hidle hprotocol hlive (Nat.zero_le cap)
        s.completed
      have hfreeing := hgiven.callFree_step
        (by rw [enter_calls, if_pos rfl] : _ = MessageCall.completing buf 0) hpool
      simpa only [enter, Function.update_idem] using hfreeing

end Messages

end EntanglementRs
