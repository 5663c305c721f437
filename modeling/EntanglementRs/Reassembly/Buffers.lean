import EntanglementRs.Reassembly.Custody

/-!
# The life of a buffer

Buffers are released once and with their capacity, the map describes exactly
the live ones between calls, and a `free_buf` frees the buffer it is given.
-/

namespace EntanglementRs

open Transition Ownership

namespace Reassembly

variable {T : Type} [DecidableEq T] {s s' : Reassembly T} {a : BufAction T}

/-! ## Calls of `free_buf` -/

/-- The buffer was deallocated, once and with its capacity. -/
def Freed (s : Reassembly T) (buf : Buffer) : Prop :=
  ∃ cap, (s.heap.blocks buf.ptr)[buf.index]? = some ⟨cap, [cap]⟩

/-- The call of `free_buf` on the thread has yet to reach its buffer. -/
structure Pending (s : Reassembly T) (t : T) (buf : Buffer) (cap : ℕ) : Prop where
  live : (s.heap.blocks buf.ptr)[buf.index]? = some ⟨cap, []⟩
  thread : s.threads t = .freeCalled buf.ptr ∨ s.threads t = .freeLocked buf.ptr ∨
    s.threads t = .freeRemoved buf.ptr cap

theorem freed_step (hmove : Move s a s') (hs : s.Inv) {buf : Buffer}
    (hfreed : s.Freed buf) : s'.Freed buf := by
  obtain ⟨cap, hcap⟩ := hfreed
  refine ⟨cap, ?_⟩
  cases hmove with
  | allocate t ptr maxSize hpc hlive => exact Heap.alloc_kept hcap
  | dropVec t ptr cap' hpc =>
      exact Heap.dealloc_kept (hs.live_of_removed hpc) cap' hcap (by simp)
  | callAlloc | callFree | lockAlloc | lockFree | insert | removeSome | removeNone
  | returnAlloc | returnFree => exact hcap

omit [DecidableEq T] in
theorem Pending.elsewhere {t u : T} {buf : Buffer} {cap : ℕ}
    (hpending : s.Pending t buf cap) {c : CallState} (hpc : s.threads u = c)
    (hcalled : c ≠ .freeCalled buf.ptr) (hlocked : c ≠ .freeLocked buf.ptr)
    (hremoved : c ≠ .freeRemoved buf.ptr cap) :
    t ≠ u := by
  rintro rfl
  rw [← hpc] at hcalled hlocked hremoved
  have hthread := hpending.thread
  tauto

omit [DecidableEq T] in
theorem Pending.congr {t : T} {buf : Buffer} {cap : ℕ} (hpending : s.Pending t buf cap)
    (hblock : (s'.heap.blocks buf.ptr)[buf.index]? =
      (s.heap.blocks buf.ptr)[buf.index]?)
    (hthread : s'.threads t = s.threads t) :
    s'.Pending t buf cap where
  live := hblock.trans hpending.live
  thread := by
    rw [hthread]
    exact hpending.thread

omit [DecidableEq T] in
/-- A `free_buf` that has the lock finds the entry of its live buffer. -/
theorem Pending.map_eq {t : T} {buf : Buffer} {cap : ℕ} (hs : s.Inv)
    (hissued : buf ∈ s.issued) (hpending : s.Pending t buf cap)
    (hpc : s.threads t = .freeLocked buf.ptr) :
    s.map buf.ptr = some cap := by
  have hlive := hs.custody.once.live?_of_getElem? hpending.live
  have hindex := hs.custody.once.newest_of_getElem? hpending.live
  obtain ⟨k, hk⟩ := hs.custody.held buf.ptr cap hlive
  cases k with
  | none => exact hk
  | some u =>
      have hfresh : ∀ b, (s.threads u).allocating = some b → b.ptr ≠ buf.ptr := by
        intro b hb hptr
        have hnewest := hs.newest u b hb
        rw [hptr] at hnewest
        have hsame : b = buf := Buffer.ext hptr (by omega)
        exact hs.fresh u b hb (hsame ▸ hissued)
      cases hpcu : s.threads u with
      | allocated b maxSize | allocLocked b maxSize =>
          have hother := hfresh b (by rw [hpcu]; rfl)
          simp [Reassembly.custody, hpcu, CallState.holds, hother.symm] at hk
      | freeRemoved ptr cap' =>
          obtain rfl := hs.locked_unique (t := t) (u := u) (by rw [hpc]; trivial)
            (by rw [hpcu]; trivial)
          rw [hpc] at hpcu
          contradiction
      | idle | allocCalled _ | allocInserted _ | freeCalled _ | freeLocked _
      | freeDone _ => simp [Reassembly.custody, hpcu, CallState.holds] at hk

theorem pending_step (hmove : Move s a s') (hs : s.Inv) {t : T} {buf : Buffer} {cap : ℕ}
    (hissued : buf ∈ s.issued) (hpending : s.Pending t buf cap) :
    s'.Pending t buf cap ∨ s'.Freed buf := by
  have hindex := hs.custody.once.newest_of_getElem? hpending.live
  cases hmove with
  | callAlloc u _ hpc _ | callFree u _ hpc | lockAlloc u _ _ hpc _ | insert u _ _ hpc
  | returnAlloc u _ hpc | returnFree u _ hpc =>
      have hne := hpending.elsewhere hpc (by simp) (by simp) (by simp)
      exact Or.inl (hpending.congr rfl (by rw [goto_threads, if_neg hne]))
  | allocate u ptr maxSize hpc hlive =>
      have hne := hpending.elsewhere hpc (by simp) (by simp) (by simp)
      have hkept : ((s.heap.alloc ptr maxSize).blocks buf.ptr)[buf.index]? =
          some ⟨cap, []⟩ :=
        Heap.alloc_kept hpending.live
      exact Or.inl (hpending.congr (hkept.trans hpending.live.symm)
        (by rw [goto_threads, if_neg hne]))
  | lockFree u ptr hpc hlock =>
      by_cases hu : t = u
      · subst hu
        have hptr : ptr = buf.ptr := by simpa [hpc] using hpending.thread
        subst hptr
        exact Or.inl ⟨hpending.live, Or.inr (Or.inl (by rw [goto_self]))⟩
      · exact Or.inl (hpending.congr rfl (by rw [goto_threads, if_neg hu]))
  | removeSome u ptr cap' hpc hmap =>
      by_cases hu : t = u
      · subst hu
        have hptr : ptr = buf.ptr := by simpa [hpc] using hpending.thread
        subst hptr
        have hcap : cap' = cap := by
          rw [hpending.map_eq hs hissued hpc] at hmap
          exact (Option.some.inj hmap).symm
        subst hcap
        exact Or.inl ⟨hpending.live, Or.inr (Or.inr (by rw [goto_self]))⟩
      · exact Or.inl (hpending.congr rfl (by rw [goto_threads, if_neg hu]))
  | removeNone u ptr hpc hmap =>
      by_cases hu : t = u
      · subst hu
        have hptr : ptr = buf.ptr := by simpa [hpc] using hpending.thread
        subst hptr
        rw [hpending.map_eq hs hissued hpc] at hmap
        contradiction
      · exact Or.inl (hpending.congr rfl (by rw [goto_threads, if_neg hu]))
  | dropVec u ptr cap' hpc =>
      have hlive := hs.live_of_removed hpc
      by_cases hptr : buf.ptr = ptr
      · subst hptr
        apply Or.inr
        refine ⟨cap', ?_⟩
        show ((s.heap.dealloc buf.ptr cap').blocks buf.ptr)[buf.index]? = _
        rw [Heap.dealloc_getElem? hlive, if_pos ⟨rfl, hindex⟩]
      · have hne := hpending.elsewhere hpc (by simp) (by simp)
          fun heq => hptr (CallState.freeRemoved.inj heq).1.symm
        refine Or.inl (hpending.congr ?_ (by rw [goto_threads, if_neg hne]))
        show ((s.heap.dealloc ptr cap').blocks buf.ptr)[buf.index]? = _
        rw [Heap.dealloc_getElem? hlive, if_neg fun hboth => hptr hboth.1]

theorem issued_mono (hmove : Move s a s') {buf : Buffer} (hbuf : buf ∈ s.issued) :
    buf ∈ s'.issued := by
  cases issued_step hmove with
  | inl hsame =>
      rw [hsame]
      exact hbuf
  | inr hgrown =>
      obtain ⟨_, _, _, _, hissued⟩ := hgrown
      rw [hissued]
      exact List.mem_append_left _ hbuf

/-- Once a `free_buf` of an issued buffer has been called, the buffer is freed
before that call returns. -/
theorem callFree_freed {t : T} {buf : Buffer} (hs : s.Inv) (hissued : buf ∈ s.issued)
    {r : Reassembly T} (hcall : machine.step s (.callFree t buf.ptr) = some r)
    {s' : Reassembly T} (hrun : machine.Reaches r s') (hidle : s'.threads t = .idle) :
    s'.Freed buf := by
  have hmove := step_move hcall
  have hinv := step_inv hmove hs
  have hissued' := issued_mono hmove hissued
  have hbegin : r.Freed buf ∨ ∃ cap, r.Pending t buf cap := by
    cases hmove with
    | callFree _ _ hpc =>
        have hknown : ∃ b, (s.heap.blocks buf.ptr)[buf.index]? = some b :=
          ⟨_, List.getElem?_eq_getElem (hs.known buf hissued)⟩
        obtain ⟨b, hblock⟩ := hknown
        cases hs.custody.once.block _ _ b hblock with
        | inl hreleased =>
            refine Or.inl ⟨b.size, ?_⟩
            rw [← hreleased]
            exact hblock
        | inr hlive =>
            refine Or.inr ⟨b.size, ?_, Or.inl (by rw [goto_self])⟩
            rw [← hlive.1]
            exact hblock
  have hend := hrun.invariant
    (I := fun q => q.Inv ∧ buf ∈ q.issued ∧ (q.Freed buf ∨ ∃ cap, q.Pending t buf cap))
    ?_ ⟨hinv, hissued', hbegin⟩
  · cases hend.2.2 with
    | inl hfreed => exact hfreed
    | inr hpending =>
        obtain ⟨cap, hpending⟩ := hpending
        have hthread := hpending.thread
        simp [hidle] at hthread
  · rintro q a q' ⟨hq, hmem, hcases⟩ hstep
    have hmove := step_move hstep
    refine ⟨step_inv hmove hq, issued_mono hmove hmem, ?_⟩
    cases hcases with
    | inl hfreed => exact Or.inl (freed_step hmove hq hfreed)
    | inr hpending =>
        obtain ⟨cap, hpending⟩ := hpending
        cases pending_step hmove hq hmem hpending with
        | inl hstill => exact Or.inr ⟨cap, hstill⟩
        | inr hfreed => exact Or.inl hfreed

/-! ## Calls of `free_buf` return -/

/-- Steps left before the thread drops the guard. -/
def guardRank (c : CallState) : ℕ :=
  match c with
  | .freeLocked _ => 3
  | .allocLocked _ _ => 2
  | .freeRemoved _ _ => 2
  | .allocInserted _ => 1
  | .freeDone _ => 1
  | _ => 0

def lockRank (s : Reassembly T) : ℕ :=
  match s.lock with
  | none => 0
  | some u => guardRank (s.threads u)

/-- The thread that holds the lock can always take its next step. -/
theorem lockRank_progress (hs : s.Inv) (hrank : s.lockRank ≠ 0) :
    ∃ a s', machine.step s a = some s' ∧ s'.lockRank < s.lockRank ∧
      ∀ t, ¬ (s.threads t).Locked → s'.threads t = s.threads t := by
  cases hlock : s.lock with
  | none => simp [lockRank, hlock] at hrank
  | some u =>
      have hholder := hs.holder u hlock
      have hnext : ∀ (b : BufAction T) (q : Reassembly T) (c : CallState),
          machine.step s b = some (q.goto u c) → q.threads = s.threads →
            (q.goto u c).lockRank < s.lockRank →
              ∃ a s', machine.step s a = some s' ∧ s'.lockRank < s.lockRank ∧
                ∀ t, ¬ (s.threads t).Locked → s'.threads t = s.threads t := by
        intro b q c hstep hthreads hless
        refine ⟨b, q.goto u c, hstep, hless, ?_⟩
        intro t hunlocked
        rw [goto_threads, hthreads, if_neg]
        rintro rfl
        exact hunlocked hholder
      cases hpc : s.threads u with
      | allocLocked buf maxSize =>
          apply hnext _ _ _ (Move.insert u buf maxSize hpc).step_eq rfl
          simp [lockRank, goto, hlock, hpc, guardRank]
      | allocInserted buf =>
          apply hnext _ _ _ (Move.returnAlloc u buf hpc).step_eq rfl
          simp [lockRank, goto, hlock, hpc, guardRank]
      | freeLocked ptr =>
          cases hmap : s.map ptr with
          | none =>
              apply hnext _ _ _ (Move.removeNone u ptr hpc hmap).step_eq rfl
              simp [lockRank, goto, hlock, hpc, guardRank]
          | some cap =>
              apply hnext _ _ _ (Move.removeSome u ptr cap hpc hmap).step_eq rfl
              simp [lockRank, goto, hlock, hpc, guardRank]
      | freeRemoved ptr cap =>
          apply hnext _ _ _ (Move.dropVec u ptr cap hpc).step_eq rfl
          simp [lockRank, goto, hlock, hpc, guardRank]
      | freeDone ptr =>
          apply hnext _ _ _ (Move.returnFree u ptr hpc).step_eq rfl
          simp [lockRank, goto, hlock, hpc, guardRank]
      | idle | allocCalled | allocated | freeCalled =>
          rw [hpc] at hholder
          exact hholder.elim

omit [DecidableEq T] in
theorem lock_none_of_rank (hs : s.Inv) (hrank : s.lockRank = 0) : s.lock = none := by
  cases hlock : s.lock with
  | none => rfl
  | some u =>
      have hholder := hs.holder u hlock
      simp only [lockRank, hlock] at hrank
      cases hpc : s.threads u <;> rw [hpc] at hholder hrank <;>
        first | exact hholder.elim | contradiction

/-- With the lock free, a `free_buf` that was called runs to its end. -/
theorem run_free {t : T} {ptr : Ptr} (hpc : s.threads t = .freeCalled ptr)
    (hlock : s.lock = none) :
    ∃ s', machine.Reaches s s' ∧ s'.threads t = .idle := by
  have hlocked := (Move.lockFree t ptr hpc hlock).step_eq
  have hreturn : ∀ q : Reassembly T, q.threads t = .freeDone ptr →
      ∃ s', machine.Reaches q s' ∧ s'.threads t = .idle := by
    intro q hq
    exact ⟨_, (Machine.Reaches.refl q).tail (Move.returnFree t ptr hq).step_eq,
      goto_self _ _ _⟩
  have hdrop : ∀ (q : Reassembly T) (cap : ℕ), q.threads t = .freeRemoved ptr cap →
      ∃ s', machine.Reaches q s' ∧ s'.threads t = .idle := by
    intro q cap hq
    obtain ⟨s', hrest, hidle⟩ := hreturn
      ({ q with heap := q.heap.dealloc ptr cap }.goto t (.freeDone ptr)) (goto_self _ _ _)
    exact ⟨s', Machine.Reaches.head (Move.dropVec t ptr cap hq).step_eq hrest, hidle⟩
  have hentered : ∀ q : Reassembly T, q.threads t = .freeLocked ptr →
      ∃ s', machine.Reaches q s' ∧ s'.threads t = .idle := by
    intro q hq
    cases hmap : q.map ptr with
    | none =>
        obtain ⟨s', hrest, hidle⟩ := hreturn (q.goto t (.freeDone ptr)) (goto_self _ _ _)
        exact ⟨s', Machine.Reaches.head (Move.removeNone t ptr hq hmap).step_eq hrest,
          hidle⟩
    | some cap =>
        obtain ⟨s', hrest, hidle⟩ := hdrop
          ({ q with map := Function.update q.map ptr none }.goto t (.freeRemoved ptr cap))
          cap (goto_self _ _ _)
        exact ⟨s', Machine.Reaches.head (Move.removeSome t ptr cap hq hmap).step_eq hrest,
          hidle⟩
  obtain ⟨s', hrest, hidle⟩ := hentered
    ({ s with lock := some t }.goto t (.freeLocked ptr)) (goto_self _ _ _)
  exact ⟨s', Machine.Reaches.head hlocked hrest, hidle⟩

theorem callFree_returns {t : T} {ptr : Ptr} (hs : s.Inv)
    (hpc : s.threads t = .freeCalled ptr) :
    ∃ s', machine.Reaches s s' ∧ s'.threads t = .idle := by
  obtain ⟨q, hreach, ⟨hq, hpcq⟩, hzero⟩ := Machine.reaches_rank_zero
    (I := fun q => q.Inv ∧ q.threads t = .freeCalled ptr) lockRank
    (by
      rintro q ⟨hq, hpcq⟩ hrank
      obtain ⟨b, q', hstep, hless, hothers⟩ := lockRank_progress hq hrank
      refine ⟨b, q', hstep, ⟨step_inv (step_move hstep) hq, ?_⟩, hless⟩
      rw [hothers t (by rw [hpcq]; exact id)]
      exact hpcq)
    s ⟨hs, hpc⟩
  obtain ⟨s', hrest, hidle⟩ := run_free hpcq (lock_none_of_rank hq hzero)
  exact ⟨s', hreach.trans hrest, hidle⟩

/-! ## Calls that find nothing -/

/-- The steps that a `free_buf` takes on thread `t` when the map has no entry
for its pointer. -/
def FreesNothing (s : Reassembly T) (t : T) : BufAction T → Prop
  | .callFree u _ => u = t
  | .acquire u => u = t ∧ ∃ ptr, s.threads t = .freeCalled ptr
  | .remove u => u = t ∧ ∃ ptr, s.threads t = .freeLocked ptr ∧ s.map ptr = none
  | .release u => u = t ∧ ∃ ptr, s.threads t = .freeDone ptr
  | _ => False

theorem freesNothing_step {t : T} (hmove : Move s a s') (hnothing : s.FreesNothing t a) :
    s'.heap = s.heap ∧ s'.map = s.map ∧ s'.issued = s.issued ∧
      ∀ u, u ≠ t → s'.threads u = s.threads u := by
  cases hmove with
  | callFree u ptr hpc =>
      obtain rfl : u = t := hnothing
      exact ⟨rfl, rfl, rfl, fun v hv => by rw [goto_threads, if_neg hv]⟩
  | lockFree u ptr hpc _ | removeNone u ptr hpc _ | returnFree u ptr hpc =>
      obtain ⟨rfl, _⟩ := hnothing
      exact ⟨rfl, rfl, rfl, fun v hv => by rw [goto_threads, if_neg hv]⟩
  | removeSome u ptr cap hpc hmap =>
      obtain ⟨rfl, other, hother, habsent⟩ := hnothing
      rw [hpc] at hother
      obtain rfl := CallState.freeLocked.inj hother
      rw [hmap] at habsent
      contradiction
  | lockAlloc u _ _ hpc _ | returnAlloc u _ hpc =>
      obtain ⟨rfl, other, hother⟩ := hnothing
      rw [hpc] at hother
      contradiction
  | callAlloc | allocate | insert | dropVec => exact hnothing.elim

/-- Undisturbed, a `free_buf` that finds nothing ends where it began. -/
theorem run_free_absent {t : T} {ptr : Ptr} (hpc : s.threads t = .idle)
    (hlock : s.lock = none) (hmap : s.map ptr = none) :
    machine.run s [.callFree t ptr, .acquire t, .remove t, .release t] = some s := by
  have hback : Function.update s.threads t .idle = s.threads := by
    rw [← hpc]
    exact Function.update_eq_self t s.threads
  obtain ⟨heap, map, lock, threads, issued⟩ := s
  simp only at hpc hlock hmap hback
  simp [Machine.run_cons, machine, step, goto, hpc, hlock, hmap, hback]

/-! ## The life of a buffer -/

structure BuffersSafe (s : Reassembly T) : Prop where
  entries : s.Quiescent →
    ∀ p cap, s.map p = some cap ↔ ⟨cap, []⟩ ∈ s.heap.blocks p
  stray : s.heap.stray = []
  once : ∀ p, ∀ b ∈ s.heap.blocks p, b.releases = [] ∨ b.releases = [b.size]
  absent : ∀ t a s', s.FreesNothing t a → machine.step s a = some s' →
    s'.heap = s.heap ∧ s'.map = s.map ∧ s'.issued = s.issued ∧
      ∀ u, u ≠ t → s'.threads u = s.threads u
  absentAlone : ∀ t ptr, s.threads t = .idle → s.lock = none → s.map ptr = none →
    machine.run s [.callFree t ptr, .acquire t, .remove t, .release t] = some s
  returns : ∀ t ptr, s.threads t = .freeCalled ptr →
    ∃ s', machine.Reaches s s' ∧ s'.threads t = .idle
  freed : ∀ t, ∀ buf ∈ s.issued, ∀ r, machine.step s (.callFree t buf.ptr) = some r →
    ∀ s', machine.Reaches r s' → s'.threads t = .idle → s'.Freed buf

omit [DecidableEq T] in
/-- Between calls the map is the only custodian. -/
theorem Inv.entries (hs : s.Inv) (hquiet : s.Quiescent) (p : Ptr) (cap : ℕ) :
    s.map p = some cap ↔ ⟨cap, []⟩ ∈ s.heap.blocks p := by
  apply hs.custody.entries_iff (k := none)
  intro k hk
  cases k with
  | none => contradiction
  | some u => simp [Reassembly.custody, hquiet u, CallState.holds]

theorem reachable_buffersSafe (hs : Reachable s) : s.BuffersSafe := by
  have hinv := hs.inv
  exact
    { entries := hinv.entries
      stray := hinv.custody.once.stray
      once := by
        intro p b hb
        obtain ⟨i, hi⟩ := List.mem_iff_getElem?.mp hb
        exact (hinv.custody.once.block p i b hi).symm.imp_left And.left
      absent := fun t a s' hnothing hstep => freesNothing_step (step_move hstep) hnothing
      absentAlone := fun t ptr => run_free_absent
      returns := fun t ptr => callFree_returns hinv
      freed := fun t buf hbuf r hcall s' => callFree_freed hinv hbuf hcall }

/-- A buffer freed twice while its address is handed out again in between. -/
theorem buffersSafe_reissued :
    ∃ s : Reassembly ℕ,
      machine.run start
          [.callAlloc 0 16, .allocate 0 4096, .acquire 0, .insert 0, .release 0,
            .callFree 1 4096, .callFree 2 4096, .acquire 1, .remove 1, .callAlloc 0 32,
            .dropVec 1, .allocate 0 4096, .release 1, .acquire 2, .remove 2, .release 2,
            .acquire 0, .insert 0, .release 0] = some s ∧
        s.map 4096 = some 32 ∧ s.BuffersSafe := by
  have hrun : ∃ s : Reassembly ℕ,
      machine.run start
          [.callAlloc 0 16, .allocate 0 4096, .acquire 0, .insert 0, .release 0,
            .callFree 1 4096, .callFree 2 4096, .acquire 1, .remove 1, .callAlloc 0 32,
            .dropVec 1, .allocate 0 4096, .release 1, .acquire 2, .remove 2, .release 2,
            .acquire 0, .insert 0, .release 0] = some s ∧
        s.map 4096 = some 32 := ⟨_, rfl, rfl⟩
  obtain ⟨s, hs, hmap⟩ := hrun
  exact ⟨s, hs, hmap, reachable_buffersSafe ⟨_, hs⟩⟩

end Reassembly

end EntanglementRs
