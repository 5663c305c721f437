import EntanglementRs.Bench.Server
import Mathlib.Algebra.Order.BigOperators.Group.List
import Mathlib.Algebra.Order.Group.Nat

/-!
# What the benchmark servers count

The counters of an echoing server against the messages that C handed over and
the echoes that it accepted, for every run.
-/

namespace EntanglementRs.Bench

open Transition Relaxed

/-- What a call adds to a counter. -/
def EchoCall.entry {T : Type} (x : T × EchoCall) : Option T × ℕ :=
  (some x.1, x.2.amount.toNat)

namespace RunServer

variable {T : Type} [DecidableEq T] {s s' : RunServer T} {a : ServerAction T}

def callsOf (t : T) (calls : List (T × EchoCall)) : List (T × EchoCall) :=
  calls.filter fun x => x.1 = t

theorem callsOf_concat_self (calls : List (T × EchoCall)) (t : T) (c : EchoCall) :
    callsOf t (calls ++ [(t, c)]) = callsOf t calls ++ [(t, c)] := by
  simp [callsOf]

theorem callsOf_concat_ne (calls : List (T × EchoCall)) {t u : T} (hu : u ≠ t)
    (c : EchoCall) : callsOf u (calls ++ [(t, c)]) = callsOf u calls := by
  simp [callsOf, Ne.symm hu]

/-- Counted as received, the echo not handed to C yet. -/
def inHand (s : RunServer T) (t : T) : List (T × EchoCall) :=
  match s.workers t with
  | .echoing c => [(t, c)]
  | _ => []

/-- Accepted by C, but not counted yet. -/
def owed (s : RunServer T) (t : T) : List (T × EchoCall) :=
  match s.workers t with
  | .counting c => [(t, c)]
  | _ => []

structure WorkerAccount (s : RunServer T) (t : T) : Prop where
  echoes : (callsOf t s.echoed).map EchoCall.entry =
    s.echo.addsOf (some t) ++ (s.owed t).map EchoCall.entry
  once : (callsOf t s.echoed ++ s.inHand t).Sublist (callsOf t s.received)
  ended : s.workers t = .ended →
    s.recv.seen (some t) ≤ s.recv.seen none ∧ s.echo.seen (some t) ≤ s.echo.seen none

structure Counters (s : RunServer T) : Prop where
  recv : s.recv.Coherent
  echo : s.echo.Coherent
  received : s.recv.adds = s.received.map EchoCall.entry
  adders : ∀ x ∈ s.echo.adds, x.1 ≠ none

theorem Counters.move (hs : s.Counters) (hmove : Move s s') : s'.Counters := by
  cases hmove with
  | call t c hpc =>
      refine ⟨hs.recv.add _ _, hs.echo, ?_, hs.adders⟩
      dsimp only
      rw [Counter.adds_add, hs.received, List.map_append]
      rfl
  | accept | refuse => exact ⟨hs.recv, hs.echo, hs.received, hs.adders⟩
  | count t c hpc =>
      refine ⟨hs.recv, hs.echo.add _ _, hs.received, fun x hx => ?_⟩
      rcases List.mem_append.mp hx with hx | hx
      · exact hs.adders x hx
      · rw [List.mem_singleton.mp hx]
        exact Option.some_ne_none t
  | join t hpc => exact ⟨hs.recv.join _ _, hs.echo.join _ _, hs.received, hs.adders⟩
  | readRecv k hpc hk => exact ⟨hs.recv.read hk, hs.echo, hs.received, hs.adders⟩
  | report r k hpc hk =>
      unfold RunServer.report
      split
      next => exact ⟨hs.recv, hs.echo.read hk, hs.received, hs.adders⟩
      next => exact ⟨hs.recv, hs.echo.read hk, hs.received, hs.adders⟩

/-! ## One worker -/

theorem goto_self (t : T) (pc : WorkerPc) : (s.goto t pc).workers t = pc :=
  Function.update_self ..

theorem goto_ne {t u : T} (hu : u ≠ t) (pc : WorkerPc) :
    (s.goto t pc).workers u = s.workers u :=
  Function.update_of_ne hu ..

/-- The account of a worker that the step does not concern; the reading thread
only sees more. -/
theorem WorkerAccount.congr {t : T} (ht : s.WorkerAccount t)
    (hworker : s'.workers t = s.workers t)
    (hechoed : callsOf t s'.echoed = callsOf t s.echoed)
    (hadds : s'.echo.addsOf (some t) = s.echo.addsOf (some t))
    (hreceived : (callsOf t s.received).Sublist (callsOf t s'.received))
    (hrecv : s'.recv.seen (some t) = s.recv.seen (some t) ∧
      s.recv.seen none ≤ s'.recv.seen none)
    (hecho : s'.echo.seen (some t) = s.echo.seen (some t) ∧
      s.echo.seen none ≤ s'.echo.seen none) : s'.WorkerAccount t where
  echoes := by
    rw [hechoed, hadds, owed, hworker]
    exact ht.echoes
  once := by
    rw [hechoed, inHand, hworker]
    exact ht.once.trans hreceived
  ended hended := by
    rw [hworker] at hended
    obtain ⟨hseenRecv, hseenEcho⟩ := ht.ended hended
    rw [hrecv.1, hecho.1]
    exact ⟨Nat.le_trans hseenRecv hrecv.2, Nat.le_trans hseenEcho hecho.2⟩

theorem WorkerAccount.call {t : T} (ht : s.WorkerAccount t) (hpc : s.workers t = .idle)
    (c : EchoCall) :
    WorkerAccount { s.goto t (.echoing c) with
      recv := s.recv.add (some t) c.amount.toNat
      received := s.received ++ [(t, c)] } t := by
  have hechoes := ht.echoes
  have honce := ht.once
  simp only [owed, inHand, hpc, List.map_nil, List.append_nil] at hechoes honce
  refine ⟨?_, ?_, fun hended => ?_⟩
  · simp only [owed, goto_self, List.map_nil, List.append_nil]
    exact hechoes
  · simp only [inHand, goto_self, callsOf_concat_self]
    exact honce.append (List.Sublist.refl _)
  · simp only [goto_self] at hended
    contradiction

theorem WorkerAccount.accept {t : T} (ht : s.WorkerAccount t) {c : EchoCall}
    (hpc : s.workers t = .echoing c) :
    WorkerAccount { s.goto t (.counting c) with echoed := s.echoed ++ [(t, c)] } t := by
  have hechoes := ht.echoes
  have honce := ht.once
  simp only [owed, inHand, hpc, List.map_nil, List.append_nil] at hechoes honce
  refine ⟨?_, ?_, fun hended => ?_⟩
  · simp only [owed, goto_self, callsOf_concat_self, List.map_append]
    rw [hechoes]
    rfl
  · simp only [inHand, goto_self, callsOf_concat_self, List.append_nil]
    exact honce
  · simp only [goto_self] at hended
    contradiction

theorem WorkerAccount.refuse {t : T} (ht : s.WorkerAccount t) {c : EchoCall}
    (hpc : s.workers t = .echoing c) : (s.goto t .idle).WorkerAccount t := by
  have hechoes := ht.echoes
  have honce := ht.once
  simp only [owed, inHand, hpc, List.map_nil, List.append_nil] at hechoes honce
  refine ⟨?_, ?_, fun hended => ?_⟩
  · simp only [owed, goto_self, List.map_nil, List.append_nil]
    exact hechoes
  · simp only [inHand, goto_self, List.append_nil]
    exact (List.sublist_append_left _ _).trans honce
  · simp only [goto_self] at hended
    contradiction

theorem WorkerAccount.count {t : T} (ht : s.WorkerAccount t) {c : EchoCall}
    (hpc : s.workers t = .counting c) :
    WorkerAccount { s.goto t .idle with
      echo := s.echo.add (some t) c.amount.toNat } t := by
  have hechoes := ht.echoes
  have honce := ht.once
  simp only [owed, inHand, hpc, List.append_nil] at hechoes honce
  refine ⟨?_, ?_, fun hended => ?_⟩
  · simp only [owed, goto_self, Counter.addsOf_add_self, List.map_nil, List.append_nil]
    exact hechoes
  · simp only [inHand, goto_self, List.append_nil]
    exact honce
  · simp only [goto_self] at hended
    contradiction

theorem WorkerAccount.join {t : T} (ht : s.WorkerAccount t) (hpc : s.workers t = .idle) :
    WorkerAccount { s.goto t .ended with
      recv := s.recv.join none (some t)
      echo := s.echo.join none (some t) } t := by
  have hechoes := ht.echoes
  have honce := ht.once
  simp only [owed, inHand, hpc, List.map_nil, List.append_nil] at hechoes honce
  refine ⟨?_, ?_, fun _ => ?_⟩
  · simp only [owed, goto_self, List.map_nil, List.append_nil]
    exact hechoes
  · simp only [inHand, goto_self, List.append_nil]
    exact honce
  · dsimp only
    rw [Counter.seen_join_self, Counter.seen_join_self,
      Counter.seen_join_ne (Option.some_ne_none t),
      Counter.seen_join_ne (Option.some_ne_none t)]
    exact ⟨Nat.le_max_right _ _, Nat.le_max_right _ _⟩

/-! ## What the reading thread knows -/

theorem seen_add {c : Counter (Option T)} {t u : T} (hu : u ≠ t) (k : ℕ) :
    (c.add (some t) k).seen (some u) = c.seen (some u) ∧
      c.seen none ≤ (c.add (some t) k).seen none := by
  rw [Counter.seen_add_ne fun h => hu (Option.some.inj h),
    Counter.seen_add_ne (Option.some_ne_none t).symm]
  exact ⟨rfl, Nat.le_refl _⟩

theorem seen_read {c : Counter (Option T)} {k : ℕ} (hk : c.seen none ≤ k) (u : T) :
    (c.read none k).seen (some u) = c.seen (some u) ∧
      c.seen none ≤ (c.read none k).seen none := by
  rw [Counter.seen_read_ne (Option.some_ne_none u), Counter.seen_read_self]
  exact ⟨rfl, hk⟩

theorem WorkerAccount.move (hs : ∀ t, s.WorkerAccount t) (hmove : Move s s') (u : T) :
    s'.WorkerAccount u := by
  have hsame : ∀ c : Counter (Option T),
      c.seen (some u) = c.seen (some u) ∧ c.seen none ≤ c.seen none :=
    fun c => ⟨rfl, Nat.le_refl _⟩
  have hsublist : ∀ calls : List (T × EchoCall),
      (callsOf u calls).Sublist (callsOf u calls) := fun _ => List.Sublist.refl _
  cases hmove with
  | call t c hpc =>
      by_cases hu : u = t
      · exact hu ▸ (hs t).call hpc c
      · refine (hs u).congr (goto_ne hu _) rfl rfl ?_ (seen_add hu _) (hsame _)
        exact (List.sublist_append_left s.received _).filter _
  | accept t c hpc =>
      by_cases hu : u = t
      · exact hu ▸ (hs t).accept hpc
      · exact (hs u).congr (goto_ne hu _) (callsOf_concat_ne _ hu c) rfl (hsublist _)
          (hsame _) (hsame _)
  | refuse t c hpc =>
      by_cases hu : u = t
      · exact hu ▸ (hs t).refuse hpc
      · exact (hs u).congr (goto_ne hu _) rfl rfl (hsublist _) (hsame _) (hsame _)
  | count t c hpc =>
      by_cases hu : u = t
      · exact hu ▸ (hs t).count hpc
      · exact (hs u).congr (goto_ne hu _) rfl
          (Counter.addsOf_add_ne fun h => hu (Option.some.inj h)) (hsublist _) (hsame _)
          (seen_add hu _)
  | join t hpc =>
      by_cases hu : u = t
      · exact hu ▸ (hs t).join hpc
      · exact (hs u).congr (goto_ne hu _) rfl rfl (hsublist _)
          (seen_read (Nat.le_max_left _ _) u) (seen_read (Nat.le_max_left _ _) u)
  | readRecv k hpc hk =>
      exact (hs u).congr rfl rfl rfl (hsublist _) (seen_read hk.1 u) (hsame _)
  | report r k hpc hk =>
      unfold RunServer.report
      split
      next => exact (hs u).congr rfl rfl rfl (hsublist _) (hsame _) (seen_read hk.1 u)
      next => exact (hs u).congr rfl rfl rfl (hsublist _) (hsame _) (seen_read hk.1 u)

/-! ## What is printed -/

structure Printed (s : RunServer T) : Prop where
  last : s.lastRecv.toNat ≤ s.recv.known none
  reading : ∀ r, s.reporter = .readingEcho r →
    s.lastRecv ≤ r ∧ r.toNat ≤ s.recv.known none
  rates : (s.lines.map fun l => l.rate.toNat).sum = s.lastRecv.toNat
  noUnderflow : ∀ l ∈ s.lines, 0 < l.rate ∧ l.rate ≤ l.recv ∧ l.recv ≤ s.lastRecv
  truthful : ∀ l ∈ s.lines, l.echo.toNat ≤ s.echo.total
  sorted : s.lines.Pairwise fun l l' => l.recv < l'.recv

/-- The counters have not wrapped around. -/
def Unwrapped (s : RunServer T) : Prop := s.recv.total < 2 ^ 64 ∧ s.echo.total < 2 ^ 64

omit [DecidableEq T] in
theorem Printed.frame (hs : s.Printed) (hlines : s'.lines = s.lines)
    (hlast : s'.lastRecv = s.lastRecv) (hrecv : s.recv.known none ≤ s'.recv.known none)
    (hecho : s.echo.total ≤ s'.echo.total)
    (hreading : ∀ r, s'.reporter = .readingEcho r → s.reporter = .readingEcho r) :
    s'.Printed := by
  constructor
  · rw [hlast]
    exact Nat.le_trans hs.last hrecv
  · intro r hr
    rw [hlast]
    obtain ⟨hle, hknown⟩ := hs.reading r (hreading r hr)
    exact ⟨hle, Nat.le_trans hknown hrecv⟩
  · rw [hlines, hlast]
    exact hs.rates
  · rw [hlines, hlast]
    exact hs.noUnderflow
  · rw [hlines]
    exact fun l hl => Nat.le_trans (hs.truthful l hl) hecho
  · rw [hlines]
    exact hs.sorted

theorem Printed.readRecv (hs : s.Printed) (hrecv : s.recv.total < 2 ^ 64) {k : ℕ}
    (hk : s.recv.Readable none k) :
    Printed { s with
      recv := s.recv.read none k
      reporter := .readingEcho (s.recv.load k) } where
  last := Nat.le_trans hs.last (Counter.known_le_read hk.1)
  reading r hr := by
    rw [← ServerPc.readingEcho.inj hr, UInt64.le_iff_toNat_le, Counter.load_toNat hrecv]
    constructor
    · exact Nat.le_trans hs.last (Counter.value_mono hk.1)
    · exact Nat.le_of_eq (Counter.known_read_self s.recv none k).symm
  rates := hs.rates
  noUnderflow := hs.noUnderflow
  truthful := hs.truthful
  sorted := hs.sorted

theorem Printed.report (hs : s.Printed) (hecho : s.echo.total < 2 ^ 64) {r : UInt64} {k : ℕ}
    (hpc : s.reporter = .readingEcho r) : (s.report r k).Printed := by
  obtain ⟨hle, hknown⟩ := hs.reading r hpc
  unfold RunServer.report
  split
  next =>
    exact hs.frame rfl rfl (Nat.le_refl _) (Nat.le_refl _) fun _ hr => (nomatch hr)
  next hne =>
    have hlt : s.lastRecv < r := by
      rw [UInt64.lt_iff_toNat_lt]
      exact Nat.lt_of_le_of_ne hle fun h => hne (UInt64.toNat_inj.mp h).symm
    have hrate : (r - s.lastRecv).toNat = r.toNat - s.lastRecv.toNat :=
      UInt64.toNat_sub_of_le _ _ hle
    constructor
    · exact hknown
    · exact fun r hr => (nomatch hr)
    · change ((s.lines ++ [_]).map _).sum = r.toNat
      rw [List.map_append, List.sum_append, hs.rates, List.map_singleton,
        List.sum_singleton, hrate]
      exact Nat.add_sub_cancel' hle
    · intro l hl
      rcases List.mem_append.mp hl with hl | hl
      · obtain ⟨hpos, hrateLe, hlast⟩ := hs.noUnderflow l hl
        exact ⟨hpos, hrateLe, UInt64.le_trans hlast hle⟩
      · rw [List.mem_singleton.mp hl]
        refine ⟨?_, ?_, UInt64.le_refl _⟩
        · rw [UInt64.lt_iff_toNat_lt, hrate]
          exact Nat.sub_pos_of_lt hlt
        · rw [UInt64.le_iff_toNat_le, hrate]
          exact Nat.sub_le _ _
    · intro l hl
      rcases List.mem_append.mp hl with hl | hl
      · exact hs.truthful l hl
      · rw [List.mem_singleton.mp hl, Counter.load_toNat hecho]
        exact Counter.value_le_total k
    · change (s.lines ++ [_]).Pairwise _
      rw [List.pairwise_append]
      refine ⟨hs.sorted, List.pairwise_singleton _ _, fun l hl l' hl' => ?_⟩
      rw [List.mem_singleton.mp hl']
      exact UInt64.lt_of_le_of_lt (hs.noUnderflow l hl).2.2 hlt

theorem Printed.move (hs : s.Printed) (hcounters : s.Counters) (hunwrapped : s.Unwrapped)
    (hmove : Move s s') : s'.Printed := by
  cases hmove with
  | call t c hpc =>
      exact hs.frame rfl rfl
        (Nat.le_of_eq (Counter.known_add hcounters.recv (by simp)).symm) (Nat.le_refl _)
        fun _ => id
  | accept | refuse =>
      exact hs.frame rfl rfl (Nat.le_refl _) (Nat.le_refl _) fun _ => id
  | count t c hpc =>
      refine hs.frame rfl rfl (Nat.le_refl _) ?_ fun _ => id
      rw [Counter.total_add]
      exact Nat.le_add_right _ _
  | join t hpc =>
      exact hs.frame rfl rfl (Counter.known_le_join _ _ _) (Nat.le_refl _) fun _ => id
  | readRecv k hpc hk => exact hs.readRecv hunwrapped.1 hk
  | report r k hpc hk => exact hs.report hunwrapped.2 hpc

/-! ## Every run -/

structure Inv (s : RunServer T) : Prop where
  counters : s.Counters
  workers : ∀ t, s.WorkerAccount t
  printed : s.Unwrapped → s.Printed

theorem start_inv : Inv (start : RunServer T) where
  counters := ⟨Counter.coherent_zero, Counter.coherent_zero, rfl, by
    simp [start, Counter.zero]⟩
  workers _ := ⟨rfl, List.Sublist.refl _, fun hended => (nomatch hended)⟩
  printed _ :=
    { last := Nat.zero_le _
      reading := fun _ hr => (nomatch hr)
      rates := rfl
      noUnderflow := by simp [start]
      truthful := by simp [start]
      sorted := List.Pairwise.nil }

theorem Move.unwrapped (hmove : Move s s') (hs : s'.Unwrapped) : s.Unwrapped := by
  obtain ⟨hrecv, hecho⟩ := hs
  cases hmove with
  | call t c hpc =>
      rw [Counter.total_add] at hrecv
      exact ⟨Nat.lt_of_le_of_lt (Nat.le_add_right _ _) hrecv, hecho⟩
  | count t c hpc =>
      rw [Counter.total_add] at hecho
      exact ⟨hrecv, Nat.lt_of_le_of_lt (Nat.le_add_right _ _) hecho⟩
  | report r k hpc hk =>
      unfold RunServer.report at hrecv hecho
      split at hrecv <;> split at hecho <;> first | contradiction | exact ⟨hrecv, hecho⟩
  | _ => exact ⟨hrecv, hecho⟩

theorem Inv.move (hs : s.Inv) (hmove : Move s s') : s'.Inv where
  counters := hs.counters.move hmove
  workers := WorkerAccount.move hs.workers hmove
  printed hs' := by
    have hunwrapped := hmove.unwrapped hs'
    exact (hs.printed hunwrapped).move hs.counters hunwrapped hmove

theorem Reachable.inv (hs : Reachable s) : s.Inv :=
  hs.invariant (fun _ _ _ hinv hstep => hinv.move (step_move hstep)) start_inv

/-! ## Messages -/

def tally (calls : List (T × EchoCall)) : ℕ :=
  (calls.map fun x => x.2.messages.toNat).sum

/-- C says how many messages a coalesced packet holds. -/
def NonNegative (calls : List (T × EchoCall)) : Prop := ∀ x ∈ calls, 0 ≤ x.2.messages

theorem amount_toNat {c : EchoCall} (hc : 0 ≤ c.messages) :
    c.amount.toNat = c.messages.toNat := by
  cases c with
  | data | messageComplete => rfl
  | coalesced messageCount =>
      have hcount : 0 ≤ messageCount.toInt64 := by
        rw [Int64.le_iff_toInt_le, Int32.toInt_toInt64]
        exact hc
      rw [EchoCall.amount, Int64.toNat_toUInt64_of_le hcount]
      change messageCount.toInt64.toInt.toNat = _
      rw [Int32.toInt_toInt64]
      rfl

omit [DecidableEq T] in
theorem sum_entries {calls : List (T × EchoCall)} (hcalls : NonNegative calls) :
    ((calls.map EchoCall.entry).map Prod.snd).sum = tally calls := by
  rw [tally, List.map_map]
  congr 1
  apply List.map_congr_left
  intro x hx
  exact amount_toNat (hcalls x hx)

theorem sum_le_of_subperm {α : Type} {l l' : List α} (f : α → ℕ) (hsub : l.Subperm l') :
    (l.map f).sum ≤ (l'.map f).sum := by
  obtain ⟨m, hperm, hsublist⟩ := hsub
  rw [← (hperm.map f).sum_eq]
  exact (hsublist.map f).sum_le_sum fun _ _ => Nat.zero_le _

theorem count_callsOf (calls : List (T × EchoCall)) (x : T × EchoCall) :
    (callsOf x.1 calls).count x = calls.count x :=
  List.count_filter (by simp)

theorem count_addsOf (c : Counter (Option T)) (t : T) (n : ℕ) :
    (c.addsOf (some t)).count (some t, n) = c.adds.count (some t, n) :=
  List.count_filter (by simp)

theorem count_entries (calls : List (T × EchoCall)) (t : T) (n : ℕ) :
    ((callsOf t calls).map EchoCall.entry).count (some t, n) =
      (calls.map EchoCall.entry).count (some t, n) := by
  have hfilter : (callsOf t calls).map EchoCall.entry =
      (calls.map EchoCall.entry).filter fun x => x.1 = some t := by
    rw [List.filter_map, callsOf]
    congr 2
    funext x
    simp [EchoCall.entry]
  rw [hfilter]
  exact List.count_filter (by simp)

/-- Every addition to `echo` is one of an echo that C accepted. -/
theorem Inv.echo_subperm (hs : s.Inv) :
    s.echo.adds.Subperm (s.echoed.map EchoCall.entry) := by
  apply List.subperm_ext_iff.mpr
  rintro ⟨t?, n⟩ hx
  obtain ⟨t, rfl⟩ := Option.ne_none_iff_exists'.mp (hs.counters.adders _ hx)
  rw [← count_entries, (hs.workers t).echoes, ← count_addsOf, List.count_append]
  exact Nat.le_add_right _ _

theorem Inv.echoed_entries_subperm (hs : s.Inv) (hended : ∀ t, s.workers t = .ended) :
    (s.echoed.map EchoCall.entry).Subperm s.echo.adds := by
  apply List.subperm_ext_iff.mpr
  intro x hx
  obtain ⟨y, _, rfl⟩ := List.mem_map.mp hx
  rw [EchoCall.entry, ← count_entries, (hs.workers y.1).echoes, ← count_addsOf,
    List.count_append, owed, hended y.1]
  exact Nat.le_refl _

theorem Inv.echoed_subperm (hs : s.Inv) : s.echoed.Subperm s.received := by
  apply List.subperm_ext_iff.mpr
  intro x _
  rw [← count_callsOf, ← count_callsOf s.received]
  exact ((List.sublist_append_left _ _).trans (hs.workers x.1).once).count_le x

/-- What a benchmark server's counters say about the run. -/
structure Counted (s : RunServer T) : Prop where
  recv : s.recv.total = tally s.received
  echo : s.echo.total ≤ tally s.echoed
  echoed : s.echoed.Subperm s.received
  printed : s.Printed
  joined : (∀ t, s.workers t = .ended) → ∀ k,
    (s.recv.Readable none k → (s.recv.load k).toNat = tally s.received) ∧
    (s.echo.Readable none k → (s.echo.load k).toNat = tally s.echoed)

/-- However the workers interleave and whatever old values the reading thread
loads, the counters count messages, and each echoed message was received. -/
theorem reachable_counted (hs : Reachable s) (hcounts : NonNegative s.received)
    (hfits : tally s.received < 2 ^ 64) : s.Counted := by
  have hinv := hs.inv
  have hsub := hinv.echoed_subperm
  have hechoed : NonNegative s.echoed := fun x hx => hcounts x (hsub.subset hx)
  have hrecv : s.recv.total = tally s.received := by
    rw [Counter.total, hinv.counters.received, sum_entries hcounts]
  have hecho : s.echo.total ≤ tally s.echoed := by
    rw [← sum_entries hechoed]
    exact sum_le_of_subperm _ hinv.echo_subperm
  have hle : tally s.echoed ≤ tally s.received := sum_le_of_subperm _ hsub
  have hunwrapped : s.Unwrapped :=
    ⟨hrecv ▸ hfits, Nat.lt_of_le_of_lt (Nat.le_trans hecho hle) hfits⟩
  refine ⟨hrecv, hecho, hsub, hinv.printed hunwrapped,
    fun hended k => ⟨fun hk => ?_, fun hk => ?_⟩⟩
  · have hall : s.recv.seen none = s.recv.adds.length := by
      apply hinv.counters.recv.seen_eq_length
      intro x hx
      rw [hinv.counters.received] at hx
      obtain ⟨y, _, rfl⟩ := List.mem_map.mp hx
      exact ((hinv.workers y.1).ended (hended y.1)).1
    rw [Counter.load_all hk hall, UInt64.toNat_ofNat', Nat.mod_eq_of_lt hunwrapped.1, hrecv]
  · have hall : s.echo.seen none = s.echo.adds.length := by
      apply hinv.counters.echo.seen_eq_length
      intro x hx
      obtain ⟨t, ht⟩ := Option.ne_none_iff_exists'.mp (hinv.counters.adders x hx)
      rw [ht]
      exact ((hinv.workers t).ended (hended t)).2
    have hecho' : tally s.echoed ≤ s.echo.total := by
      rw [← sum_entries hechoed]
      exact sum_le_of_subperm _ (hinv.echoed_entries_subperm hended)
    rw [Counter.load_all hk hall, UInt64.toNat_ofNat', Nat.mod_eq_of_lt hunwrapped.2]
    exact Nat.le_antisymm hecho hecho'

/-- A coalesced packet of five, a message whose echo C refuses, and a line that is
printed before the echoes are counted. -/
def coalescedFive : List (ServerAction Bool) :=
  [.call false (.coalesced 5), .echo false true, .call true .data, .read 1, .read 0,
    .echo true false, .count false, .join true, .join false, .read 2, .read 1]

theorem reachable_counted_coalescedFive :
    ∃ s : RunServer Bool, machine.run start coalescedFive = some s ∧
      s.lines = [⟨5, 5, 0⟩, ⟨6, 1, 5⟩] ∧ s.Counted := by
  have hrun : ∃ s : RunServer Bool, machine.run start coalescedFive = some s ∧
      s.lines = [⟨5, 5, 0⟩, ⟨6, 1, 5⟩] ∧
      s.received = [(false, .coalesced 5), (true, .data)] := ⟨_, rfl, rfl, rfl⟩
  obtain ⟨s, hrun, hlines, hreceived⟩ := hrun
  refine ⟨s, hrun, hlines, reachable_counted ⟨_, hrun⟩ ?_ ?_⟩
  · rw [hreceived]
    unfold NonNegative
    decide
  · rw [hreceived]
    decide

end RunServer

end EntanglementRs.Bench
