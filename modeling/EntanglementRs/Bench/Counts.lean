import EntanglementRs.Bench.Model
import Mathlib.Algebra.Group.Nat.Defs

/-!
# What the benchmarks count

The counters of the benchmark clients against what C accepted and handed over,
and what `main` can make of them.
-/

namespace EntanglementRs.Bench

open Transition Relaxed

/-! ## Moves -/

/-- The steps of a client thread that count nothing. -/
inductive Control (cfg : Config) (running : Bool) : ClientPc → ClientPc → Prop where
  | connected : Control cfg running .connecting .checking
  | failed : Control cfg running .connecting .ended
  | stopped (hstop : running = false) : Control cfg running .checking .ended
  | offer : Control cfg running .polled (.bursting 0)
  | full : Control cfg running .polled .checking
  | round (k : ℕ) (hk : k < cfg.burst) : Control cfg running (.bursting k) (.sending k)
  | leave (k : ℕ) : Control cfg running (.bursting k) .checking
  | refused (k : ℕ) : Control cfg running (.sending k) (.bursting (k + 1))

variable {n : ℕ} {cfg : Config} {s s' : RunClient n} {a : RunAction n}

namespace RunClient

inductive Move (cfg : Config) (s : RunClient n) : RunClient n → Prop where
  | control (i : Fin n) (pc : ClientPc) (hpc : Control cfg s.running (s.threads i) pc) :
      Move cfg s (s.goto i pc)
  | poll (i : Fin n) (hpc : s.threads i = .checking) :
      Move cfg s { s.goto i .polled with polls := s.polls ++ [i] }
  | accept (i : Fin n) (k : ℕ) (hpc : s.threads i = .sending k) :
      Move cfg s { s.goto i (.counting k) with accepted := s.accepted ++ [i] }
  | count (i : Fin n) (k : ℕ) (hpc : s.threads i = .counting k) :
      Move cfg s { s.goto i (.bursting (k + 1)) with sent := s.sent.add (some i) 1 }
  | echo (i : Fin n) (hpc : s.threads i ≠ .ended) :
      Move cfg s { s with
        echoes := s.echoes.add (some i) 1
        echoed := s.echoed ++ [i] }
  | tick (hpc : s.reporter = .waiting) : Move cfg s { s with reporter := .reading }
  | stop (hpc : s.reporter = .waiting) :
      Move cfg s { s with running := false, reporter := .joining 0 }
  | readSent (k : ℕ) (hpc : s.reporter = .reading) (hk : s.sent.Readable none k) :
      Move cfg s { s with
        sent := s.sent.read none k
        reporter := .readingEcho (s.sent.load k) }
  | readEcho (sent : UInt64) (k : ℕ) (hpc : s.reporter = .readingEcho sent)
      (hk : s.echoes.Readable none k) :
      Move cfg s (s.printLine sent k)
  | join (i : Fin n) (hpc : s.reporter = .joining i) (hended : s.threads i = .ended) :
      Move cfg s { s with
        sent := s.sent.join none (some i)
        echoes := s.echoes.join none (some i)
        reporter := .joining (i + 1) }
  | joined (j : ℕ) (hpc : s.reporter = .joining j) (hj : n ≤ j) :
      Move cfg s { s with reporter := .collecting }
  | collectSent (k : ℕ) (hpc : s.reporter = .collecting) (hk : s.sent.Readable none k) :
      Move cfg s { s with
        sent := s.sent.read none k
        reporter := .collectingEcho (s.sent.load k) }
  | collectEcho (totalSent : UInt64) (k : ℕ)
      (hpc : s.reporter = .collectingEcho totalSent) (hk : s.echoes.Readable none k) :
      Move cfg s { s with
        echoes := s.echoes.read none k
        reporter := .done totalSent (s.echoes.load k) }

theorem readNext_move {k : ℕ} (hstep : s.readNext k = some s') : Move cfg s s' := by
  unfold readNext at hstep
  split at hstep
  next hpc =>
    split at hstep
    next hk =>
      obtain rfl := Option.some.inj hstep
      exact .readSent k hpc hk
    next => contradiction
  next sent hpc =>
    split at hstep
    next hk =>
      obtain rfl := Option.some.inj hstep
      exact .readEcho sent k hpc hk
    next => contradiction
  next hpc =>
    split at hstep
    next hk =>
      obtain rfl := Option.some.inj hstep
      exact .collectSent k hpc hk
    next => contradiction
  next totalSent hpc =>
    split at hstep
    next hk =>
      obtain rfl := Option.some.inj hstep
      exact .collectEcho totalSent k hpc hk
    next => contradiction
  next => contradiction
  next => contradiction
  next => contradiction

theorem reporterStep_move (hstep : s.reporterStep a = some s') : Move cfg s s' := by
  cases a with
  | elapsed timeUp =>
      rw [reporterStep] at hstep
      split at hstep
      next hpc =>
        split at hstep
        next =>
          obtain rfl := Option.some.inj hstep
          exact .stop hpc
        next =>
          obtain rfl := Option.some.inj hstep
          exact .tick hpc
      next => contradiction
  | read k => exact readNext_move hstep
  | join =>
      rw [reporterStep] at hstep
      split at hstep
      next j hpc =>
        split at hstep
        next hj =>
          split at hstep
          next hended =>
            obtain rfl := Option.some.inj hstep
            exact .join ⟨j, hj⟩ hpc hended
          next => contradiction
        next hj =>
          obtain rfl := Option.some.inj hstep
          exact .joined j hpc (Nat.le_of_not_lt hj)
      next => contradiction
  | _ => contradiction

theorem clientStep_move (hstep : s.clientStep cfg a = some s') : Move cfg s s' := by
  cases a with
  | connected i =>
      rw [clientStep] at hstep
      split at hstep
      next hpc =>
        obtain rfl := Option.some.inj hstep
        exact .control i _ (hpc ▸ .connected)
      next => contradiction
  | failed i =>
      rw [clientStep] at hstep
      split at hstep
      next hpc =>
        obtain rfl := Option.some.inj hstep
        exact .control i _ (hpc ▸ .failed)
      next => contradiction
  | load i running =>
      rw [clientStep] at hstep
      split at hstep
      next hpc =>
        split at hstep
        next =>
          obtain rfl := Option.some.inj hstep
          exact .poll i hpc
        next =>
          split at hstep
          next => contradiction
          next hstop =>
            obtain rfl := Option.some.inj hstep
            exact .control i _ (hpc ▸ .stopped (by simpa using hstop))
      next => contradiction
  | canSend i can =>
      rw [clientStep] at hstep
      split at hstep
      next hpc =>
        obtain rfl := Option.some.inj hstep
        split
        next => exact .control i _ (hpc ▸ .offer)
        next => exact .control i _ (hpc ▸ .full)
      next k hpc =>
        split at hstep
        next hk =>
          obtain rfl := Option.some.inj hstep
          split
          next => exact .control i _ (hpc ▸ .round k hk)
          next => exact .control i _ (hpc ▸ .leave k)
        next => contradiction
      next => contradiction
  | endBurst i =>
      rw [clientStep] at hstep
      split at hstep
      next hpc =>
        obtain rfl := Option.some.inj hstep
        exact .control i _ (hpc ▸ .leave cfg.burst)
      next => contradiction
  | send i ok =>
      rw [clientStep] at hstep
      split at hstep
      next k hpc =>
        split at hstep
        next =>
          obtain rfl := Option.some.inj hstep
          exact .accept i k hpc
        next =>
          obtain rfl := Option.some.inj hstep
          exact .control i _ (hpc ▸ .refused k)
      next => contradiction
  | count i =>
      rw [clientStep] at hstep
      split at hstep
      next k hpc =>
        obtain rfl := Option.some.inj hstep
        exact .count i k hpc
      next => contradiction
  | echo i =>
      rw [clientStep] at hstep
      split at hstep
      next => contradiction
      next hpc =>
        obtain rfl := Option.some.inj hstep
        exact .echo i hpc
  | _ => contradiction

theorem step_move (hstep : (machine cfg n).step s a = some s') : Move cfg s s' := by
  cases a with
  | elapsed timeUp => exact reporterStep_move (a := .elapsed timeUp) hstep
  | read k => exact reporterStep_move (a := .read k) hstep
  | join => exact reporterStep_move (a := .join) hstep
  | connected i => exact clientStep_move (a := .connected i) hstep
  | failed i => exact clientStep_move (a := .failed i) hstep
  | load i running => exact clientStep_move (a := .load i running) hstep
  | canSend i can => exact clientStep_move (a := .canSend i can) hstep
  | send i ok => exact clientStep_move (a := .send i ok) hstep
  | count i => exact clientStep_move (a := .count i) hstep
  | endBurst i => exact clientStep_move (a := .endBurst i) hstep
  | echo i => exact clientStep_move (a := .echo i) hstep

/-! ## The counters -/

/-- Only client threads add, and one at a time. -/
def Ones (c : Counter (Thread n)) : Prop := ∀ x ∈ c.adds, x.2 = 1 ∧ x.1 ≠ none

structure Counters (s : RunClient n) : Prop where
  sent : s.sent.Coherent
  echoes : s.echoes.Coherent
  sentOnes : Ones s.sent
  echoOnes : Ones s.echoes

theorem Ones.add {c : Counter (Thread n)} (hc : Ones c) (i : Fin n) :
    Ones (c.add (some i) 1) := by
  intro x hx
  rcases List.mem_append.mp hx with hx | hx
  · exact hc x hx
  · rw [List.mem_singleton.mp hx]
    exact ⟨rfl, Option.some_ne_none i⟩

theorem Ones.total {c : Counter (Thread n)} (hc : Ones c) : c.total = c.adds.length := by
  have hones : c.adds.map Prod.snd = List.replicate c.adds.length 1 := by
    apply List.eq_replicate_iff.mpr
    refine ⟨List.length_map .., fun k hk => ?_⟩
    obtain ⟨x, hx, rfl⟩ := List.mem_map.mp hk
    exact (hc x hx).1
  rw [Counter.total, hones, List.sum_replicate_nat, Nat.mul_one]

theorem Counters.move (hs : s.Counters) (hmove : Move cfg s s') : s'.Counters := by
  cases hmove with
  | control | poll | accept | tick | stop | joined =>
      exact ⟨hs.sent, hs.echoes, hs.sentOnes, hs.echoOnes⟩
  | count i k hpc =>
      exact ⟨hs.sent.add _ _, hs.echoes, hs.sentOnes.add i, hs.echoOnes⟩
  | echo i hpc =>
      exact ⟨hs.sent, hs.echoes.add _ _, hs.sentOnes, hs.echoOnes.add i⟩
  | readSent k hpc hk | collectSent k hpc hk =>
      exact ⟨hs.sent.read hk, hs.echoes, hs.sentOnes, hs.echoOnes⟩
  | readEcho _ k hpc hk | collectEcho _ k hpc hk =>
      exact ⟨hs.sent, hs.echoes.read hk, hs.sentOnes, hs.echoOnes⟩
  | join i hpc hended =>
      exact ⟨hs.sent.join _ _, hs.echoes.join _ _, hs.sentOnes, hs.echoOnes⟩

/-! ## The client threads -/

end RunClient

/-- Accepted, but not counted yet. -/
def ClientPc.owed : ClientPc → ℕ
  | .counting _ => 1
  | _ => 0

/-- What is left of the burst. -/
def ClientPc.room (cfg : Config) : ClientPc → ℕ
  | .polled => cfg.burst
  | .bursting k => cfg.burst - k
  | .sending k => cfg.burst - k
  | .counting k => cfg.burst - (k + 1)
  | _ => 0

/-- A send is one of the rounds of the burst. -/
def ClientPc.InBurst (cfg : Config) : ClientPc → Prop
  | .sending k => k < cfg.burst
  | .counting k => k < cfg.burst
  | _ => True

theorem Control.spec {running : Bool} {pc pc' : ClientPc}
    (hpc : Control cfg running pc pc') :
    pc.owed = pc'.owed ∧ pc'.room cfg ≤ pc.room cfg ∧ pc'.InBurst cfg ∧ pc ≠ .ended := by
  cases hpc with
  | refused k => exact ⟨rfl, Nat.sub_le_sub_left (Nat.le_succ k) _, trivial, by simp⟩
  | round k hk => exact ⟨rfl, Nat.le_refl _, hk, by simp⟩
  | _ => simp [ClientPc.owed, ClientPc.room, ClientPc.InBurst]

namespace RunClient

structure ThreadAccount (cfg : Config) (s : RunClient n) (i : Fin n) : Prop where
  counted : s.accepted.count i = (s.sent.addsOf (some i)).length + (s.threads i).owed
  echoed : s.echoed.count i = (s.echoes.addsOf (some i)).length
  burst : s.accepted.count i + (s.threads i).room cfg ≤ cfg.burst * s.polls.count i
  inBurst : (s.threads i).InBurst cfg

theorem goto_self (i : Fin n) (pc : ClientPc) : (s.goto i pc).threads i = pc :=
  Function.update_self ..

theorem goto_ne {i j : Fin n} (hj : j ≠ i) (pc : ClientPc) :
    (s.goto i pc).threads j = s.threads j :=
  Function.update_of_ne hj ..

theorem count_concat_self (is : List (Fin n)) (i : Fin n) :
    (is ++ [i]).count i = is.count i + 1 := by
  rw [List.count_append, List.count_singleton_self]

theorem count_concat_ne (is : List (Fin n)) {i j : Fin n} (hj : j ≠ i) :
    (is ++ [i]).count j = is.count j := by
  rw [List.count_append, List.count_singleton, beq_false_of_ne (Ne.symm hj)]
  rfl

/-- The account of a thread that the step does not concern. -/
theorem ThreadAccount.congr {i : Fin n} (hi : s.ThreadAccount cfg i)
    (hthread : s'.threads i = s.threads i)
    (haccepted : s'.accepted.count i = s.accepted.count i)
    (hsent : s'.sent.addsOf (some i) = s.sent.addsOf (some i))
    (hechoed : s'.echoed.count i = s.echoed.count i)
    (hechoes : s'.echoes.addsOf (some i) = s.echoes.addsOf (some i))
    (hpolls : s'.polls.count i = s.polls.count i) : s'.ThreadAccount cfg i where
  counted := by
    rw [haccepted, hsent, hthread]
    exact hi.counted
  echoed := by
    rw [hechoed, hechoes]
    exact hi.echoed
  burst := by
    rw [haccepted, hthread, hpolls]
    exact hi.burst
  inBurst := by
    rw [hthread]
    exact hi.inBurst

theorem ThreadAccount.control {i : Fin n} (hi : s.ThreadAccount cfg i) {pc : ClientPc}
    (hpc : Control cfg s.running (s.threads i) pc) :
    (s.goto i pc).ThreadAccount cfg i := by
  obtain ⟨howed, hroom, hinBurst, _⟩ := hpc.spec
  constructor
  · rw [goto_self, ← howed]
    exact hi.counted
  · exact hi.echoed
  · rw [goto_self]
    exact Nat.le_trans (Nat.add_le_add_left hroom _) hi.burst
  · rw [goto_self]
    exact hinBurst

theorem ThreadAccount.poll {i : Fin n} (hi : s.ThreadAccount cfg i)
    (hpc : s.threads i = .checking) :
    ThreadAccount cfg { s.goto i .polled with polls := s.polls ++ [i] } i := by
  have hcounted := hi.counted
  have hburst := hi.burst
  rw [hpc] at hcounted hburst
  refine ⟨?_, hi.echoed, ?_, ?_⟩
  · dsimp only
    rw [goto_self]
    exact hcounted
  · dsimp only
    rw [goto_self, count_concat_self, Nat.mul_succ]
    exact Nat.add_le_add_right hburst _
  · dsimp only
    rw [goto_self]
    trivial

theorem ThreadAccount.accept {i : Fin n} (hi : s.ThreadAccount cfg i) {k : ℕ}
    (hpc : s.threads i = .sending k) :
    ThreadAccount cfg { s.goto i (.counting k) with accepted := s.accepted ++ [i] } i := by
  obtain ⟨hcounted, hechoed, hburst, hinBurst⟩ := hi
  rw [hpc] at hcounted hburst hinBurst
  simp only [ClientPc.owed, ClientPc.room, ClientPc.InBurst] at hcounted hburst hinBurst
  refine ⟨?_, hechoed, ?_, ?_⟩
  · dsimp only
    rw [goto_self, count_concat_self, hcounted]
    rfl
  · dsimp only
    rw [goto_self, count_concat_self]
    change _ + (cfg.burst - (k + 1)) ≤ cfg.burst * s.polls.count i
    omega
  · dsimp only
    rw [goto_self]
    exact hinBurst

theorem ThreadAccount.count {i : Fin n} (hi : s.ThreadAccount cfg i) {k : ℕ}
    (hpc : s.threads i = .counting k) :
    ThreadAccount cfg { s.goto i (.bursting (k + 1)) with
      sent := s.sent.add (some i) 1 } i := by
  obtain ⟨hcounted, hechoed, hburst, hinBurst⟩ := hi
  rw [hpc] at hcounted hburst hinBurst
  refine ⟨?_, hechoed, ?_, ?_⟩
  · dsimp only
    rw [goto_self, Counter.addsOf_add_self, List.length_append]
    exact hcounted
  · dsimp only
    rw [goto_self]
    exact hburst
  · dsimp only
    rw [goto_self]
    trivial

theorem ThreadAccount.echo {i : Fin n} (hi : s.ThreadAccount cfg i) :
    ThreadAccount cfg { s with
      echoes := s.echoes.add (some i) 1
      echoed := s.echoed ++ [i] } i := by
  refine ⟨hi.counted, ?_, hi.burst, hi.inBurst⟩
  dsimp only
  rw [count_concat_self, Counter.addsOf_add_self, List.length_append, hi.echoed]
  rfl

theorem addsOf_add_other (c : Counter (Thread n)) {i j : Fin n} (hj : j ≠ i) (k : ℕ) :
    (c.add (some i) k).addsOf (some j) = c.addsOf (some j) :=
  Counter.addsOf_add_ne fun h => hj (Option.some.inj h)

theorem ThreadAccount.move (hs : ∀ i, s.ThreadAccount cfg i) (hmove : Move cfg s s')
    (j : Fin n) : s'.ThreadAccount cfg j := by
  cases hmove with
  | control i pc hpc =>
      by_cases hj : j = i
      · exact hj ▸ (hs i).control hpc
      · exact (hs j).congr (goto_ne hj pc) rfl rfl rfl rfl rfl
  | poll i hpc =>
      by_cases hj : j = i
      · exact hj ▸ (hs i).poll hpc
      · exact (hs j).congr (goto_ne hj _) rfl rfl rfl rfl (count_concat_ne _ hj)
  | accept i k hpc =>
      by_cases hj : j = i
      · exact hj ▸ (hs i).accept hpc
      · exact (hs j).congr (goto_ne hj _) (count_concat_ne _ hj) rfl rfl rfl rfl
  | count i k hpc =>
      by_cases hj : j = i
      · exact hj ▸ (hs i).count hpc
      · exact (hs j).congr (goto_ne hj _) rfl (addsOf_add_other _ hj 1) rfl rfl rfl
  | echo i hpc =>
      by_cases hj : j = i
      · exact hj ▸ (hs i).echo
      · exact (hs j).congr rfl rfl rfl (count_concat_ne _ hj) (addsOf_add_other _ hj 1) rfl
  | _ => exact (hs j).congr rfl rfl rfl rfl rfl rfl

end RunClient

/-! ## What `main` waits for -/

/-- How many threads have been joined. -/
def ReporterPc.joined (n : ℕ) : ReporterPc → ℕ
  | .joining j => j
  | .collecting => n
  | .collectingEcho _ => n
  | .done _ _ => n
  | _ => 0

namespace RunClient

structure Waited (s : RunClient n) : Prop where
  joined : ∀ i : Fin n, i < s.reporter.joined n → s.threads i = .ended ∧
    s.sent.seen (some i) ≤ s.sent.seen none ∧ s.echoes.seen (some i) ≤ s.echoes.seen none
  collected : ∀ v, s.reporter = .collectingEcho v → v = UInt64.ofNat s.sent.total
  done : ∀ v w, s.reporter = .done v w →
    v = UInt64.ofNat s.sent.total ∧ w = UInt64.ofNat s.echoes.total

/-- While a thread can still move, `main` has not joined it. -/
theorem Waited.active (hs : s.Waited) {i : Fin n} (hi : s.threads i ≠ .ended)
    (hreporter : s'.reporter = s.reporter)
    (hthreads : ∀ j, j ≠ i → s'.threads j = s.threads j)
    (hsent : ∀ t, t ≠ some i → s'.sent.seen t = s.sent.seen t)
    (hechoes : ∀ t, t ≠ some i → s'.echoes.seen t = s.echoes.seen t) : s'.Waited := by
  have hwaiting : ¬ i < s.reporter.joined n := fun h => hi (hs.joined i h).1
  constructor
  · intro j hj
    rw [hreporter] at hj
    have hji : j ≠ i := fun h => hwaiting (h ▸ hj)
    have hsome : some j ≠ some i := fun h => hji (Option.some.inj h)
    rw [hthreads j hji, hsent _ hsome, hechoes _ hsome, hsent none (by simp),
      hechoes none (by simp)]
    exact hs.joined j hj
  · intro v hv
    rw [hreporter] at hv
    rw [hv] at hwaiting
    exact absurd i.isLt hwaiting
  · intro v w hv
    rw [hreporter] at hv
    rw [hv] at hwaiting
    exact absurd i.isLt hwaiting

/-- Once all threads are joined, `main` has seen every addition. -/
theorem Waited.seen_all (hs : s.Waited) (hcounters : s.Counters)
    (hjoined : s.reporter.joined n = n) :
    s.sent.seen none = s.sent.adds.length ∧ s.echoes.seen none = s.echoes.adds.length := by
  constructor
  · apply hcounters.sent.seen_eq_length
    intro x hx
    obtain ⟨i, hi⟩ := Option.ne_none_iff_exists'.mp (hcounters.sentOnes x hx).2
    rw [hi]
    exact (hs.joined i (Nat.lt_of_lt_of_eq i.isLt hjoined.symm)).2.1
  · apply hcounters.echoes.seen_eq_length
    intro x hx
    obtain ⟨i, hi⟩ := Option.ne_none_iff_exists'.mp (hcounters.echoOnes x hx).2
    rw [hi]
    exact (hs.joined i (Nat.lt_of_lt_of_eq i.isLt hjoined.symm)).2.2

theorem Waited.move (hs : s.Waited) (hcounters : s.Counters) (hmove : Move cfg s s') :
    s'.Waited := by
  cases hmove with
  | control i pc hpc =>
      exact hs.active hpc.spec.2.2.2 rfl (fun j hj => goto_ne hj pc) (fun _ _ => rfl)
        fun _ _ => rfl
  | poll i hpc =>
      exact hs.active (i := i) (by simp [hpc]) rfl (fun j hj => goto_ne hj _)
        (fun _ _ => rfl) fun _ _ => rfl
  | accept i k hpc =>
      exact hs.active (i := i) (by simp [hpc]) rfl (fun j hj => goto_ne hj _)
        (fun _ _ => rfl) fun _ _ => rfl
  | count i k hpc =>
      exact hs.active (i := i) (by simp [hpc]) rfl (fun j hj => goto_ne hj _)
        (fun t ht => Counter.seen_add_ne ht) fun _ _ => rfl
  | echo i hpc =>
      exact hs.active hpc rfl (fun _ _ => rfl) (fun _ _ => rfl)
        fun t ht => Counter.seen_add_ne ht
  | tick | stop | readSent | readEcho =>
      exact ⟨fun i hi => absurd hi (Nat.not_lt_zero _), fun _ hv => (nomatch hv),
        fun _ _ hv => (nomatch hv)⟩
  | join i hpc hended =>
      refine ⟨fun j hj => ?_, fun _ hv => (nomatch hv), fun _ _ hv => (nomatch hv)⟩
      have hne : some j ≠ none := Option.some_ne_none j
      dsimp only
      rw [Counter.seen_join_ne hne, Counter.seen_join_ne hne, Counter.seen_join_self,
        Counter.seen_join_self]
      by_cases hji : j = i
      · rw [hji]
        exact ⟨hended, Nat.le_max_right _ _, Nat.le_max_right _ _⟩
      · have hlt : j < s.reporter.joined n := by
          have hne := Fin.val_ne_of_ne hji
          simp only [hpc, ReporterPc.joined] at hj ⊢
          omega
        obtain ⟨hended, hsent, hechoes⟩ := hs.joined j hlt
        exact ⟨hended, Nat.le_trans hsent (Nat.le_max_left _ _),
          Nat.le_trans hechoes (Nat.le_max_left _ _)⟩
  | joined j hpc hj =>
      refine ⟨fun i hi => hs.joined i ?_, fun _ hv => (nomatch hv), fun _ _ hv => (nomatch hv)⟩
      rw [hpc]
      exact Nat.lt_of_lt_of_le i.isLt hj
  | collectSent k hpc hk =>
      have hall := (hs.seen_all hcounters (by rw [hpc]; rfl)).1
      refine ⟨fun i hi => ?_, fun v hv => ?_, fun _ _ hv => (nomatch hv)⟩
      · obtain ⟨hended, hsent, hechoes⟩ := hs.joined i (by rw [hpc]; exact i.isLt)
        dsimp only
        rw [Counter.seen_read_ne (Option.some_ne_none i), Counter.seen_read_self]
        exact ⟨hended, Nat.le_trans hsent hk.1, hechoes⟩
      · rw [← ReporterPc.collectingEcho.inj hv]
        exact Counter.load_all hk hall
  | collectEcho totalSent k hpc hk =>
      have hall := (hs.seen_all hcounters (by rw [hpc]; rfl)).2
      refine ⟨fun i hi => ?_, fun _ hv => (nomatch hv), fun v w hv => ?_⟩
      · obtain ⟨hended, hsent, hechoes⟩ := hs.joined i (by rw [hpc]; exact i.isLt)
        dsimp only
        rw [Counter.seen_read_ne (Option.some_ne_none i), Counter.seen_read_self]
        exact ⟨hended, hsent, Nat.le_trans hechoes hk.1⟩
      · obtain ⟨rfl, rfl⟩ := ReporterPc.done.inj hv
        exact ⟨hs.collected _ hpc, Counter.load_all hk hall⟩

/-! ## What `main` prints -/

/-- The counters have not wrapped around. -/
def Unwrapped (s : RunClient n) : Prop := s.sent.total < 2 ^ 64 ∧ s.echoes.total < 2 ^ 64

structure Printed (s : RunClient n) : Prop where
  lastSent : s.lastSent.toNat ≤ s.sent.known none
  lastEcho : s.lastEcho.toNat ≤ s.echoes.known none
  reading : ∀ v, s.reporter = .readingEcho v →
    s.lastSent ≤ v ∧ v.toNat ≤ s.sent.known none
  sendRates : (s.lines.map fun l => l.sendRate.toNat).sum = s.lastSent.toNat
  echoRates : (s.lines.map fun l => l.echoRate.toNat).sum = s.lastEcho.toNat
  noUnderflow : ∀ l ∈ s.lines, l.sendRate ≤ l.totalSent ∧ l.echoRate ≤ l.totalEcho
  sorted : s.lines.Pairwise fun l l' =>
    l.totalSent ≤ l'.totalSent ∧ l.totalEcho ≤ l'.totalEcho
  last : ∀ l ∈ s.lines, l.totalSent ≤ s.lastSent ∧ l.totalEcho ≤ s.lastEcho

/-- Nothing is forgotten, so what was printed still holds. -/
theorem Printed.frame (hs : s.Printed) (hlines : s'.lines = s.lines)
    (hlastSent : s'.lastSent = s.lastSent) (hlastEcho : s'.lastEcho = s.lastEcho)
    (hsent : s.sent.known none ≤ s'.sent.known none)
    (hechoes : s.echoes.known none ≤ s'.echoes.known none)
    (hreading : ∀ v, s'.reporter = .readingEcho v → s.reporter = .readingEcho v) :
    s'.Printed := by
  constructor
  · rw [hlastSent]
    exact Nat.le_trans hs.lastSent hsent
  · rw [hlastEcho]
    exact Nat.le_trans hs.lastEcho hechoes
  · intro v hv
    rw [hlastSent]
    obtain ⟨hle, hknown⟩ := hs.reading v (hreading v hv)
    exact ⟨hle, Nat.le_trans hknown hsent⟩
  · rw [hlines, hlastSent]
    exact hs.sendRates
  · rw [hlines, hlastEcho]
    exact hs.echoRates
  · rw [hlines]
    exact hs.noUnderflow
  · rw [hlines]
    exact hs.sorted
  · rw [hlines, hlastSent, hlastEcho]
    exact hs.last

theorem Printed.readSent (hs : s.Printed) (hsent : s.sent.total < 2 ^ 64) {k : ℕ}
    (hk : s.sent.Readable none k) :
    Printed { s with
      sent := s.sent.read none k
      reporter := .readingEcho (s.sent.load k) } where
  lastSent := Nat.le_trans hs.lastSent (Counter.known_le_read hk.1)
  lastEcho := hs.lastEcho
  reading v hv := by
    rw [← ReporterPc.readingEcho.inj hv, UInt64.le_iff_toNat_le, Counter.load_toNat hsent]
    constructor
    · exact Nat.le_trans hs.lastSent (Counter.value_mono hk.1)
    · exact Nat.le_of_eq (Counter.known_read_self s.sent none k).symm
  sendRates := hs.sendRates
  echoRates := hs.echoRates
  noUnderflow := hs.noUnderflow
  sorted := hs.sorted
  last := hs.last

theorem Printed.readEcho (hs : s.Printed) (hechoes : s.echoes.total < 2 ^ 64)
    {sent : UInt64} {k : ℕ} (hpc : s.reporter = .readingEcho sent)
    (hk : s.echoes.Readable none k) :
    (s.printLine sent k).Printed := by
  obtain ⟨hsentLe, hsentKnown⟩ := hs.reading sent hpc
  have hechoLe : s.lastEcho ≤ s.echoes.load k := by
    rw [UInt64.le_iff_toNat_le, Counter.load_toNat hechoes]
    exact Nat.le_trans hs.lastEcho (Counter.value_mono hk.1)
  constructor
  · exact hsentKnown
  · change (s.echoes.load k).toNat ≤ _
    rw [Counter.load_toNat hechoes]
    exact Nat.le_of_eq (Counter.known_read_self s.echoes none k).symm
  · exact fun v hv => (nomatch hv)
  · change ((s.lines ++ [_]).map _).sum = sent.toNat
    rw [List.map_append, List.sum_append, hs.sendRates, List.map_singleton,
      List.sum_singleton, UInt64.toNat_sub_of_le _ _ hsentLe]
    exact Nat.add_sub_cancel' hsentLe
  · change ((s.lines ++ [_]).map _).sum = (s.echoes.load k).toNat
    rw [List.map_append, List.sum_append, hs.echoRates, List.map_singleton,
      List.sum_singleton, UInt64.toNat_sub_of_le _ _ hechoLe]
    exact Nat.add_sub_cancel' hechoLe
  · intro l hl
    rcases List.mem_append.mp hl with hl | hl
    · exact hs.noUnderflow l hl
    · rw [List.mem_singleton.mp hl]
      constructor
      · rw [UInt64.le_iff_toNat_le, UInt64.toNat_sub_of_le _ _ hsentLe]
        exact Nat.sub_le _ _
      · rw [UInt64.le_iff_toNat_le, UInt64.toNat_sub_of_le _ _ hechoLe]
        exact Nat.sub_le _ _
  · change (s.lines ++ [_]).Pairwise _
    rw [List.pairwise_append]
    refine ⟨hs.sorted, List.pairwise_singleton _ _, fun l hl l' hl' => ?_⟩
    rw [List.mem_singleton.mp hl']
    obtain ⟨hsent, hecho⟩ := hs.last l hl
    exact ⟨UInt64.le_trans hsent hsentLe, UInt64.le_trans hecho hechoLe⟩
  · intro l hl
    rcases List.mem_append.mp hl with hl | hl
    · obtain ⟨hsent, hecho⟩ := hs.last l hl
      exact ⟨UInt64.le_trans hsent hsentLe, UInt64.le_trans hecho hechoLe⟩
    · rw [List.mem_singleton.mp hl]
      exact ⟨UInt64.le_refl _, UInt64.le_refl _⟩

theorem Printed.move (hs : s.Printed) (hcounters : s.Counters) (hunwrapped : s.Unwrapped)
    (hmove : Move cfg s s') : s'.Printed := by
  cases hmove with
  | control | poll | accept =>
      exact hs.frame rfl rfl rfl (Nat.le_refl _) (Nat.le_refl _) fun _ => id
  | count i k hpc =>
      exact hs.frame rfl rfl rfl
        (Nat.le_of_eq (Counter.known_add hcounters.sent (by simp)).symm) (Nat.le_refl _)
        fun _ => id
  | echo i hpc =>
      exact hs.frame rfl rfl rfl (Nat.le_refl _)
        (Nat.le_of_eq (Counter.known_add hcounters.echoes (by simp)).symm) fun _ => id
  | tick | stop | joined =>
      exact hs.frame rfl rfl rfl (Nat.le_refl _) (Nat.le_refl _) fun _ hv => (nomatch hv)
  | readSent k hpc hk => exact hs.readSent hunwrapped.1 hk
  | readEcho sent k hpc hk => exact hs.readEcho hunwrapped.2 hpc hk
  | join i hpc hended =>
      exact hs.frame rfl rfl rfl (Counter.known_le_join _ _ _) (Counter.known_le_join _ _ _)
        fun _ hv => (nomatch hv)
  | collectSent k hpc hk =>
      exact hs.frame rfl rfl rfl (Counter.known_le_read hk.1) (Nat.le_refl _)
        fun _ hv => (nomatch hv)
  | collectEcho totalSent k hpc hk =>
      exact hs.frame rfl rfl rfl (Nat.le_refl _) (Counter.known_le_read hk.1)
        fun _ hv => (nomatch hv)

end RunClient

end EntanglementRs.Bench
