import EntanglementRs.Reassembly.Model

/-!
# Who holds a buffer

A live buffer is held by the `alloc_buf` that has yet to insert it, by the map,
or by the `free_buf` that has removed it and not yet dropped the `Vec`.  Each
step allocates into this custody, passes a buffer on, or releases it.
-/

namespace EntanglementRs

open Transition Ownership

/-- The live buffer a call holds while the map has no entry for it. -/
def CallState.holds : CallState → Ptr → Option ℕ
  | .allocated buf maxSize, p => if p = buf.ptr then some maxSize else none
  | .allocLocked buf maxSize, p => if p = buf.ptr then some maxSize else none
  | .freeRemoved ptr cap, p => if p = ptr then some cap else none
  | _, _ => none

/-- The buffer a call of `alloc_buf` has yet to return. -/
def CallState.allocating : CallState → Option Buffer
  | .allocated buf _ => some buf
  | .allocLocked buf _ => some buf
  | .allocInserted buf => some buf
  | _ => none

def CallState.Locked : CallState → Prop
  | .allocLocked _ _ => True
  | .allocInserted _ => True
  | .freeLocked _ => True
  | .freeRemoved _ _ => True
  | .freeDone _ => True
  | _ => False

namespace Reassembly

variable {T : Type} [DecidableEq T] {s s' : Reassembly T} {a : BufAction T} {t : T}

/-- The map is one custodian, every thread another. -/
def custody (s : Reassembly T) : Option T → Ptr → Option ℕ
  | none => s.map
  | some t => (s.threads t).holds

theorem custody_goto (c : CallState) (k : Option T) (p : Ptr) :
    (s.goto t c).custody k p = if k = some t then c.holds p else s.custody k p := by
  cases k with
  | none => rfl
  | some u =>
      by_cases hu : u = t
      · subst hu
        simp [custody, goto]
      · simp [custody, goto, hu]

theorem custody_goto_same {c : CallState} (hholds : c.holds = (s.threads t).holds) :
    (s.goto t c).custody = s.custody := by
  funext k p
  rw [custody_goto]
  split
  next hk =>
    rw [hk, hholds]
    rfl
  next => rfl

theorem custody_allocate {maxSize : ℕ} (hpc : s.threads t = .allocCalled maxSize)
    (buf : Buffer) (heap : Heap Ptr ℕ) :
    ({ s with heap := heap }.goto t (.allocated buf maxSize)).custody =
      hold s.custody (some t) buf.ptr (some maxSize) := by
  funext k p
  rw [custody_goto]
  by_cases hk : k = some t
  · subst hk
    simp [hold, custody, hpc, CallState.holds]
  · simp only [hold, hk, false_and]
    rfl

theorem custody_insert {buf : Buffer} {maxSize : ℕ}
    (hpc : s.threads t = .allocLocked buf maxSize) :
    ({ s with map := Function.update s.map buf.ptr (some maxSize) }.goto t
        (.allocInserted buf)).custody =
      hold (hold s.custody (some t) buf.ptr none) none buf.ptr (some maxSize) := by
  funext k p
  rw [custody_goto]
  cases k with
  | none => simp [hold, custody, Function.update_apply]
  | some u =>
      by_cases hu : u = t
      · subst hu
        simp [hold, custody, hpc, CallState.holds]
      · simp [hold, custody, hu]

theorem custody_remove {ptr : Ptr} {cap : ℕ} (hpc : s.threads t = .freeLocked ptr) :
    ({ s with map := Function.update s.map ptr none }.goto t
        (.freeRemoved ptr cap)).custody =
      hold (hold s.custody none ptr none) (some t) ptr (some cap) := by
  funext k p
  rw [custody_goto]
  cases k with
  | none => simp [hold, custody, Function.update_apply]
  | some u =>
      by_cases hu : u = t
      · subst hu
        simp [hold, custody, hpc, CallState.holds]
      · simp [hold, custody, hu]

theorem custody_dropVec {ptr : Ptr} {cap : ℕ} (hpc : s.threads t = .freeRemoved ptr cap)
    (heap : Heap Ptr ℕ) :
    ({ s with heap := heap }.goto t (.freeDone ptr)).custody =
      hold s.custody (some t) ptr none := by
  funext k p
  rw [custody_goto]
  by_cases hk : k = some t
  · subst hk
    simp [hold, custody, hpc, CallState.holds]
  · simp only [hold, hk, false_and]
    rfl

theorem custody_step (hmove : Move s a s') (hc : Custody s.heap s.custody) :
    Custody s'.heap s'.custody := by
  have hquiet : ∀ {t : T} {r : Reassembly T} {c : CallState},
      r.heap = s.heap → r.custody = s.custody → c.holds = (r.threads t).holds →
        Custody (r.goto t c).heap (r.goto t c).custody := by
    intro t r c hheap hcustody hholds
    rw [custody_goto_same hholds, hcustody]
    exact hheap ▸ hc
  cases hmove with
  | callAlloc t maxSize hpc hpos => exact hquiet rfl rfl (by rw [hpc]; rfl)
  | allocate t ptr maxSize hpc hlive =>
      rw [custody_allocate hpc]
      exact hc.alloc hlive (some t) maxSize
  | callFree t ptr hpc => exact hquiet rfl rfl (by rw [hpc]; rfl)
  | lockAlloc t buf maxSize hpc hlock => exact hquiet rfl rfl (by simp only [hpc]; rfl)
  | lockFree t ptr hpc hlock => exact hquiet rfl rfl (by simp only [hpc]; rfl)
  | insert t buf maxSize hpc =>
      rw [custody_insert hpc]
      apply hc.pass
      simp [custody, hpc, CallState.holds]
  | removeSome t ptr cap hpc hmap =>
      rw [custody_remove hpc]
      have hheld : s.custody none ptr = some cap := hmap
      exact hc.pass hheld (some t)
  | removeNone t ptr hpc hmap => exact hquiet rfl rfl (by rw [hpc]; rfl)
  | dropVec t ptr cap hpc =>
      rw [custody_dropVec hpc]
      apply hc.dealloc
      simp [custody, hpc, CallState.holds]
  | returnAlloc t buf hpc => exact hquiet rfl rfl (by simp only [hpc]; rfl)
  | returnFree t ptr hpc => exact hquiet rfl rfl (by simp only [hpc]; rfl)

/-! ## The invariant -/

structure Inv (s : Reassembly T) : Prop where
  custody : Custody s.heap s.custody
  lock : ∀ t, (s.threads t).Locked → s.lock = some t
  holder : ∀ t, s.lock = some t → (s.threads t).Locked
  newest : ∀ t buf, (s.threads t).allocating = some buf →
    buf.index + 1 = (s.heap.blocks buf.ptr).length
  inserted : ∀ t buf, s.threads t = .allocInserted buf → ∃ cap, s.map buf.ptr = some cap
  fresh : ∀ t buf, (s.threads t).allocating = some buf → buf ∉ s.issued
  known : ∀ buf ∈ s.issued, buf.index < (s.heap.blocks buf.ptr).length

omit [DecidableEq T] in
theorem start_inv : Inv (start : Reassembly T) where
  custody := by
    have hempty : (start : Reassembly T).custody = fun _ _ => none := by
      funext k p
      cases k <;> rfl
    rw [hempty]
    exact Custody.empty
  lock t hlocked := hlocked.elim
  holder t hlock := by simp [start] at hlock
  newest t buf hbuf := by simp [start, CallState.allocating] at hbuf
  inserted t buf hpc := by simp [start] at hpc
  fresh t buf hbuf := by simp [start]
  known buf hbuf := by simp [start] at hbuf

omit [DecidableEq T] in
theorem Inv.locked_unique (hs : s.Inv) {t u : T} (ht : (s.threads t).Locked)
    (hu : (s.threads u).Locked) : t = u :=
  Option.some.inj ((hs.lock t ht).symm.trans (hs.lock u hu))

omit [DecidableEq T] in
theorem Inv.live_of_removed (hs : s.Inv) {t : T} {ptr : Ptr} {cap : ℕ}
    (hpc : s.threads t = .freeRemoved ptr cap) :
    s.heap.live? ptr = some cap := by
  apply hs.custody.live (some t)
  simp [Reassembly.custody, hpc, CallState.holds]

omit [DecidableEq T] in
/-- The buffer of an `alloc_buf` that has not returned is held by the call or,
once inserted, by the map. -/
theorem Inv.allocating_held (hs : s.Inv) {t : T} {buf : Buffer}
    (hbuf : (s.threads t).allocating = some buf) :
    ∃ k cap, s.custody k buf.ptr = some cap ∧
      (k = some t ∨ k = none ∧ s.threads t = .allocInserted buf) := by
  cases hpc : s.threads t with
  | allocated b maxSize | allocLocked b maxSize =>
      rw [hpc] at hbuf
      obtain rfl := Option.some.inj hbuf
      refine ⟨some t, maxSize, ?_, Or.inl rfl⟩
      simp [Reassembly.custody, hpc, CallState.holds]
  | allocInserted b =>
      rw [hpc] at hbuf
      obtain rfl := Option.some.inj hbuf
      obtain ⟨cap, hcap⟩ := hs.inserted t b hpc
      exact ⟨none, cap, hcap, Or.inr ⟨rfl, rfl⟩⟩
  | idle | allocCalled _ | freeCalled _ | freeLocked _ | freeRemoved _ _ | freeDone _ =>
      rw [hpc] at hbuf
      contradiction

omit [DecidableEq T] in
/-- Two calls of `alloc_buf` in progress have buffers at different addresses. -/
theorem Inv.allocating_unique (hs : s.Inv) {t u : T} {buf buf' : Buffer}
    (ht : (s.threads t).allocating = some buf)
    (hu : (s.threads u).allocating = some buf') (hptr : buf.ptr = buf'.ptr) :
    t = u := by
  obtain ⟨k, cap, hk, hkt⟩ := hs.allocating_held ht
  obtain ⟨k', cap', hk', hku⟩ := hs.allocating_held hu
  rw [hptr] at hk
  have hsame := hs.custody.sole k k' buf'.ptr cap cap' hk hk'
  subst hsame
  cases hkt with
  | inl hkt =>
      cases hku with
      | inl hku => exact Option.some.inj (hkt.symm.trans hku)
      | inr hku =>
          rw [hkt] at hku
          simp at hku
  | inr hkt =>
      cases hku with
      | inl hku =>
          rw [hkt.1] at hku
          simp at hku
      | inr hku =>
          apply hs.locked_unique
          · rw [hkt.2]
            trivial
          · rw [hku.2]
            trivial

/-! ## What one step changes -/

theorem lock_step (hmove : Move s a s') (hs : s.Inv) (u : T)
    (hlocked : (s'.threads u).Locked) : s'.lock = some u := by
  cases hmove with
  | callAlloc t _ hpc _ | callFree t _ hpc | allocate t _ _ hpc _ =>
      rw [goto_threads] at hlocked
      split at hlocked
      next => exact hlocked.elim
      next => exact hs.lock u hlocked
  | insert t _ _ hpc | removeSome t _ _ hpc _ | removeNone t _ hpc _
  | dropVec t _ _ hpc =>
      rw [goto_threads] at hlocked
      split at hlocked
      next hu => exact hs.lock u (by rw [hu, hpc]; trivial)
      next => exact hs.lock u hlocked
  | lockAlloc t _ _ _ hlock | lockFree t _ _ hlock =>
      rw [goto_threads] at hlocked
      split at hlocked
      next hu => exact congrArg some hu.symm
      next =>
        have hheld := hs.lock u hlocked
        rw [hlock] at hheld
        contradiction
  | returnAlloc t _ hpc | returnFree t _ hpc =>
      rw [goto_threads] at hlocked
      split at hlocked
      next => exact hlocked.elim
      next hu =>
        -- the thread that returns holds the lock, so no other does
        exact absurd (hs.locked_unique hlocked (by rw [hpc]; trivial)) hu

theorem holder_step (hmove : Move s a s') (hs : s.Inv) (u : T)
    (hlock' : s'.lock = some u) : (s'.threads u).Locked := by
  cases hmove with
  | callAlloc t _ hpc _ | callFree t _ hpc | allocate t _ _ hpc _ =>
      have hholder := hs.holder u hlock'
      rw [goto_threads, if_neg]
      · exact hholder
      · rintro rfl
        rw [hpc] at hholder
        exact hholder
  | insert t _ _ hpc | removeSome t _ _ hpc _ | removeNone t _ hpc _
  | dropVec t _ _ hpc =>
      rw [goto_threads]
      split
      next => trivial
      next => exact hs.holder u hlock'
  | lockAlloc t _ _ _ hlock | lockFree t _ _ hlock =>
      have hu : u = t := (Option.some.inj hlock').symm
      rw [goto_threads, if_pos hu]
      trivial
  | returnAlloc | returnFree => contradiction

/-- A call of `alloc_buf` gets its buffer once, from the allocator. -/
theorem allocating_step (hmove : Move s a s') {u : T} {buf : Buffer}
    (hbuf : (s'.threads u).allocating = some buf) :
    (s.threads u).allocating = some buf ∨
      a = .allocate u buf.ptr ∧ s.heap.live? buf.ptr = none ∧
        buf.index = (s.heap.blocks buf.ptr).length := by
  cases hmove with
  | allocate t ptr maxSize hpc hlive =>
      rw [goto_threads] at hbuf
      split at hbuf
      next hu =>
        obtain rfl := Option.some.inj hbuf
        subst hu
        exact Or.inr ⟨rfl, hlive, rfl⟩
      next => exact Or.inl hbuf
  | lockAlloc t _ _ hpc _ | insert t _ _ hpc =>
      rw [goto_threads] at hbuf
      split at hbuf
      next hu =>
        rw [hu, hpc]
        exact Or.inl hbuf
      next => exact Or.inl hbuf
  | callAlloc t _ hpc _ | callFree t _ hpc | lockFree t _ _ _ | removeSome t _ _ _ _
  | removeNone t _ _ _ | dropVec t _ _ _ | returnAlloc t _ _ | returnFree t _ _ =>
      rw [goto_threads] at hbuf
      split at hbuf
      next => simp [CallState.allocating] at hbuf
      next => exact Or.inl hbuf

theorem blocks_step (hmove : Move s a s') (hs : s.Inv) (p : Ptr) :
    (s'.heap.blocks p).length = (s.heap.blocks p).length ∨
      (∃ t, a = .allocate t p) ∧ s.heap.live? p = none ∧
        (s'.heap.blocks p).length = (s.heap.blocks p).length + 1 := by
  cases hmove with
  | allocate t ptr maxSize hpc hlive =>
      by_cases hp : p = ptr
      · subst hp
        exact Or.inr ⟨⟨t, rfl⟩, hlive, by simp [goto]⟩
      · exact Or.inl (by simp [goto, hp])
  | dropVec t ptr cap hpc =>
      exact Or.inl (Heap.dealloc_length (hs.live_of_removed hpc) cap)
  | callAlloc | callFree | lockAlloc | lockFree | insert | removeSome | removeNone
  | returnAlloc | returnFree => exact Or.inl rfl

theorem issued_step (hmove : Move s a s') :
    s'.issued = s.issued ∨
      ∃ t buf, a = .release t ∧ s.threads t = .allocInserted buf ∧
        s'.issued = s.issued ++ [buf] := by
  cases hmove with
  | returnAlloc t buf hpc => exact Or.inr ⟨t, buf, rfl, hpc, rfl⟩
  | callAlloc | allocate | callFree | lockAlloc | lockFree | insert | removeSome
  | removeNone | dropVec | returnFree => exact Or.inl rfl

theorem newest_step (hmove : Move s a s') (hs : s.Inv) (u : T) (buf : Buffer)
    (hbuf : (s'.threads u).allocating = some buf) :
    buf.index + 1 = (s'.heap.blocks buf.ptr).length := by
  cases allocating_step hmove hbuf with
  | inl hold =>
      have hnewest := hs.newest u buf hold
      cases blocks_step hmove hs buf.ptr with
      | inl hsame => exact hnewest.trans hsame.symm
      | inr hgrown =>
          obtain ⟨k, cap, hheld, _⟩ := hs.allocating_held hold
          have hlive := hs.custody.live k buf.ptr cap hheld
          rw [hgrown.2.1] at hlive
          contradiction
  | inr hnew =>
      obtain ⟨rfl, _, hindex⟩ := hnew
      cases hmove with
      | allocate => simp [goto, hindex]

theorem known_step (hmove : Move s a s') (hs : s.Inv) (buf : Buffer)
    (hbuf : buf ∈ s'.issued) :
    buf.index < (s'.heap.blocks buf.ptr).length := by
  have hgrows : (s.heap.blocks buf.ptr).length ≤ (s'.heap.blocks buf.ptr).length := by
    cases blocks_step hmove hs buf.ptr with
    | inl hsame => exact Nat.le_of_eq hsame.symm
    | inr hgrown => omega
  cases issued_step hmove with
  | inl hsame =>
      rw [hsame] at hbuf
      exact Nat.lt_of_lt_of_le (hs.known buf hbuf) hgrows
  | inr hgrown =>
      obtain ⟨t, buf', _, hpc, hissued⟩ := hgrown
      rw [hissued, List.mem_append, List.mem_singleton] at hbuf
      cases hbuf with
      | inl hold => exact Nat.lt_of_lt_of_le (hs.known buf hold) hgrows
      | inr hnew =>
          subst hnew
          have hnewest := hs.newest t buf (by rw [hpc]; rfl)
          omega

theorem fresh_step (hmove : Move s a s') (hs : s.Inv) (u : T) (buf : Buffer)
    (hbuf : (s'.threads u).allocating = some buf) : buf ∉ s'.issued := by
  intro hissued
  cases allocating_step hmove hbuf with
  | inr hnew =>
      obtain ⟨rfl, _, hindex⟩ := hnew
      cases hmove with
      | allocate =>
          have hknown := hs.known buf hissued
          omega
  | inl hold =>
      have hfresh := hs.fresh u buf hold
      cases issued_step hmove with
      | inl hsame =>
          rw [hsame] at hissued
          exact hfresh hissued
      | inr hgrown =>
          obtain ⟨t, buf', rfl, hpc, hall⟩ := hgrown
          rw [hall, List.mem_append, List.mem_singleton] at hissued
          cases hissued with
          | inl hmem => exact hfresh hmem
          | inr hsame =>
              -- the call that returns the buffer is the one that had it
              have hcall : (s.threads t).allocating = some buf' := by
                rw [hpc]
                rfl
              obtain rfl := hs.allocating_unique hold hcall (by rw [hsame])
              cases hmove with
              | returnAlloc | returnFree =>
                  rw [goto_threads, if_pos rfl] at hbuf
                  contradiction

theorem inserted_step (hmove : Move s a s') (hs : s.Inv) (u : T) (buf : Buffer)
    (hpc' : s'.threads u = .allocInserted buf) :
    ∃ cap, s'.map buf.ptr = some cap := by
  cases hmove with
  | insert t b maxSize hpc =>
      rw [goto_threads] at hpc'
      split at hpc'
      next =>
        obtain rfl := CallState.allocInserted.inj hpc'
        exact ⟨maxSize, by simp [goto]⟩
      next =>
        obtain ⟨cap, hcap⟩ := hs.inserted u buf hpc'
        by_cases hp : buf.ptr = b.ptr
        · exact ⟨maxSize, by simp [goto, hp]⟩
        · exact ⟨cap, by simpa [goto, hp] using hcap⟩
  | removeSome t ptr cap hpc hmap =>
      rw [goto_threads] at hpc'
      split at hpc'
      next => contradiction
      next hu =>
        -- both threads would hold the lock
        apply absurd _ hu
        apply hs.locked_unique
        · rw [hpc']
          trivial
        · rw [hpc]
          trivial
  | callAlloc | callFree | allocate | lockAlloc | lockFree | removeNone | dropVec
  | returnAlloc | returnFree =>
      rw [goto_threads] at hpc'
      split at hpc'
      next => contradiction
      next => exact hs.inserted u buf hpc'

theorem step_inv (hmove : Move s a s') (hs : s.Inv) : s'.Inv where
  custody := custody_step hmove hs.custody
  lock := lock_step hmove hs
  holder := holder_step hmove hs
  newest := newest_step hmove hs
  inserted := inserted_step hmove hs
  fresh := fresh_step hmove hs
  known := known_step hmove hs

theorem Reachable.inv (hs : Reachable s) : s.Inv :=
  Machine.Reaches.invariant (I := Inv)
    (fun _ _ _ hinv hstep => step_inv (step_move hstep) hinv) hs start_inv

end Reassembly

end EntanglementRs
