import Mathlib.Data.List.Basic
import Mathlib.Tactic.Common

/-!
# Machines with named moves

A machine takes a step by naming one of its moves; the named move either does
not apply or has one result.  All nondeterminism is in the choice of moves, so
a run is a list of moves and can be evaluated.  The rules of this file turn a
statement about one step into a statement about every run.
-/

namespace Transition

variable {σ τ α β : Type*}

/-- A transition system whose moves are named. -/
structure Machine (σ : Type*) (α : Type*) where
  step : σ → α → Option σ

namespace Machine

variable (M : Machine σ α)

/-- Take the named moves in order; `none` as soon as one does not apply. -/
def run : σ → List α → Option σ
  | s, [] => some s
  | s, a :: as => (M.step s a).bind fun s' => run s' as

@[simp] theorem run_nil (s : σ) : M.run s [] = some s := rfl

theorem run_cons (s : σ) (a : α) (as : List α) :
    M.run s (a :: as) = (M.step s a).bind fun s' => M.run s' as := rfl

theorem run_cons_eq_some {s t : σ} {a : α} {as : List α} :
    M.run s (a :: as) = some t ↔
      ∃ s', M.step s a = some s' ∧ M.run s' as = some t := by
  rw [run_cons, Option.bind_eq_some_iff]

theorem run_append (s : σ) (as bs : List α) :
    M.run s (as ++ bs) = (M.run s as).bind fun s' => M.run s' bs := by
  induction as generalizing s with
  | nil => rfl
  | cons a as ih =>
      rw [List.cons_append, run_cons, run_cons]
      cases hstep : M.step s a with
      | none => rfl
      | some s' => simpa using ih s'

theorem run_append_of {s t u : σ} {as bs : List α}
    (hfirst : M.run s as = some t) (hsecond : M.run t bs = some u) :
    M.run s (as ++ bs) = some u := by
  rw [run_append, hfirst]
  exact hsecond

/-! ## Reachability -/

def Reaches (s t : σ) : Prop :=
  ∃ as, M.run s as = some t

variable {M}

theorem Reaches.refl (s : σ) : M.Reaches s s :=
  ⟨[], rfl⟩

theorem Reaches.trans {s t u : σ}
    (hst : M.Reaches s t) (htu : M.Reaches t u) : M.Reaches s u := by
  obtain ⟨as, has⟩ := hst
  obtain ⟨bs, hbs⟩ := htu
  exact ⟨as ++ bs, M.run_append_of has hbs⟩

theorem Reaches.tail {s t u : σ} {a : α}
    (hst : M.Reaches s t) (hstep : M.step t a = some u) : M.Reaches s u :=
  hst.trans ⟨[a], by simp [run_cons, hstep]⟩

theorem Reaches.head {s t u : σ} {a : α}
    (hstep : M.step s a = some t) (htu : M.Reaches t u) : M.Reaches s u :=
  Reaches.trans ⟨[a], by simp [run_cons, hstep]⟩ htu

theorem run_invariant {I : σ → Prop}
    (hstep : ∀ s a s', I s → M.step s a = some s' → I s')
    {s t : σ} {as : List α} (hs : I s) (hrun : M.run s as = some t) :
    I t := by
  induction as generalizing s with
  | nil =>
      obtain rfl : s = t := by simpa using hrun
      exact hs
  | cons a as ih =>
      obtain ⟨s', hfirst, hrest⟩ := M.run_cons_eq_some.mp hrun
      exact ih (hstep s a s' hs hfirst) hrest

theorem Reaches.invariant {I : σ → Prop}
    (hstep : ∀ s a s', I s → M.step s a = some s' → I s')
    {s t : σ} (hst : M.Reaches s t) (hs : I s) : I t := by
  obtain ⟨as, has⟩ := hst
  exact run_invariant hstep hs has

theorem Reaches.relation {R : σ → σ → Prop}
    (hrefl : ∀ s, R s s)
    (hstep : ∀ s t a u, R s t → M.step t a = some u → R s u)
    {s t : σ} (hst : M.Reaches s t) : R s t :=
  hst.invariant (I := R s) (fun t a u hR hu => hstep s t a u hR hu) (hrefl s)

/-! ## Runs whose steps meet a condition -/

variable (M) in
/-- Every step of the run is taken in a state and by a move that meet `P`. -/
def Follows (P : σ → α → Prop) : σ → List α → Prop
  | _, [] => True
  | s, a :: as => P s a ∧ ∀ s', M.step s a = some s' → Follows P s' as

theorem Follows.cons_iff {P : σ → α → Prop} {s s' : σ} {a : α} {as : List α}
    (hstep : M.step s a = some s') :
    M.Follows P s (a :: as) ↔ P s a ∧ M.Follows P s' as := by
  constructor
  · rintro ⟨hP, hrest⟩
    exact ⟨hP, hrest s' hstep⟩
  · rintro ⟨hP, hrest⟩
    refine ⟨hP, fun s'' hstep' => ?_⟩
    rw [hstep, Option.some.injEq] at hstep'
    exact hstep' ▸ hrest

/-- What every step that meets `P` preserves holds at the end of such a run. -/
theorem Follows.invariant {P : σ → α → Prop} {I : σ → Prop}
    (hstep : ∀ s a s', I s → P s a → M.step s a = some s' → I s')
    {s t : σ} {as : List α} (hfollows : M.Follows P s as) (hs : I s)
    (hrun : M.run s as = some t) : I t := by
  induction as generalizing s with
  | nil =>
      obtain rfl : s = t := by simpa using hrun
      exact hs
  | cons a as ih =>
      obtain ⟨s', hfirst, hrest⟩ := M.run_cons_eq_some.mp hrun
      obtain ⟨hP, hfollows⟩ := (Follows.cons_iff hfirst).mp hfollows
      exact ih hfollows (hstep s a s' hs hP hfirst) hrest

def restrict (M : Machine σ α) (P : σ → α → Prop)
    [∀ s a, Decidable (P s a)] : Machine σ α where
  step s a := if P s a then M.step s a else none

theorem restrict_step_eq_some {P : σ → α → Prop}
    [∀ s a, Decidable (P s a)] {s s' : σ} {a : α} :
    (M.restrict P).step s a = some s' ↔ P s a ∧ M.step s a = some s' := by
  unfold restrict
  by_cases hP : P s a <;> simp [hP]

theorem run_restrict {P : σ → α → Prop} [∀ s a, Decidable (P s a)] {s t : σ}
    {as : List α} (hrun : (M.restrict P).run s as = some t) :
    M.Follows P s as ∧ M.run s as = some t := by
  induction as generalizing s with
  | nil => exact ⟨trivial, by simpa using hrun⟩
  | cons a as ih =>
      obtain ⟨s', hfirst, hrest⟩ := (M.restrict P).run_cons_eq_some.mp hrun
      obtain ⟨hP, hstep⟩ := restrict_step_eq_some.mp hfirst
      obtain ⟨hfollows, hrun⟩ := ih hrest
      exact ⟨(Follows.cons_iff hstep).mpr ⟨hP, hfollows⟩,
        M.run_cons_eq_some.mpr ⟨s', hstep, hrun⟩⟩

/-! ## Backward simulation -/

/-- If every step that ends in one of two related states has a counterpart that
ends in the other and starts in related states, then every run has. -/
theorem Reaches.backward {R : σ → σ → Prop}
    (hstep : ∀ s a t t', M.step s a = some t → R t t' →
      ∃ s' b, R s s' ∧ M.step s' b = some t')
    {s t t' : σ} (hst : M.Reaches s t) (ht : R t t') :
    ∃ s', R s s' ∧ M.Reaches s' t' := by
  obtain ⟨as, has⟩ := hst
  induction as generalizing s with
  | nil =>
      obtain rfl : s = t := by simpa using has
      exact ⟨t', ht, Reaches.refl t'⟩
  | cons a as ih =>
      obtain ⟨u, hfirst, hrest⟩ := M.run_cons_eq_some.mp has
      obtain ⟨u', hu, hreach⟩ := ih hrest
      obtain ⟨s', b, hs, hcounterpart⟩ := hstep s a u u' hfirst hu
      exact ⟨s', hs, Reaches.head hcounterpart hreach⟩

/-! ## Progress -/

/-- If every state that meets `I` and has positive rank can step to a state of
lower rank that meets `I`, then a state of rank zero is reached. -/
theorem reaches_rank_zero {I : σ → Prop} (rank : σ → ℕ)
    (hprogress : ∀ s, I s → rank s ≠ 0 →
      ∃ a s', M.step s a = some s' ∧ I s' ∧ rank s' < rank s)
    (s : σ) (hs : I s) :
    ∃ t, M.Reaches s t ∧ I t ∧ rank t = 0 := by
  induction hrank : rank s using Nat.strongRecOn generalizing s with
  | _ r ih =>
      by_cases hzero : rank s = 0
      · exact ⟨s, Reaches.refl s, hs, hzero⟩
      · obtain ⟨a, s', hstep, hs', hlt⟩ := hprogress s hs hzero
        obtain ⟨t, hst, ht, htzero⟩ := ih (rank s') (hrank ▸ hlt) s' hs' rfl
        exact ⟨t, Reaches.head hstep hst, ht, htzero⟩

/-- A run in which `costly` moves lower the rank and only `gaining` ones raise it,
by at most `k`: it has few costly moves, or has passed a `milestone`. -/
theorem run_bounded {I : σ → Prop} {milestone : σ → α → Prop} (rank : σ → ℕ)
    (costly gaining : α → Bool) (k : ℕ)
    (hinv : ∀ s a s', I s → M.step s a = some s' → I s')
    (hrank : ∀ s a s', I s → M.step s a = some s' → milestone s a ∨
      rank s' + (costly a).toNat ≤ rank s + k * (gaining a).toNat)
    {s t : σ} {as : List α} (hs : I s) (hrun : M.run s as = some t) :
    (∃ u a u', M.Reaches s u ∧ milestone u a ∧ M.step u a = some u' ∧ M.Reaches u' t) ∨
      rank t + as.countP costly ≤ rank s + k * as.countP gaining := by
  induction as generalizing s with
  | nil =>
      obtain rfl : s = t := by simpa using hrun
      exact .inr (Nat.le_refl _)
  | cons a as ih =>
      obtain ⟨s', hfirst, hrest⟩ := M.run_cons_eq_some.mp hrun
      rcases hrank s a s' hs hfirst with hmilestone | hle
      · exact .inl ⟨s, a, s', Reaches.refl s, hmilestone, hfirst, as, hrest⟩
      · rcases ih (hinv s a s' hs hfirst) hrest with
          ⟨u, b, u', hreach, hmilestone, hstep, hafter⟩ | hrestLe
        · exact .inl ⟨u, b, u', Reaches.head hfirst hreach, hmilestone, hstep, hafter⟩
        · right
          have hcostly : (a :: as).countP costly = as.countP costly + (costly a).toNat := by
            rw [List.countP_cons]
            cases costly a <;> rfl
          have hgaining :
              (a :: as).countP gaining = as.countP gaining + (gaining a).toNat := by
            rw [List.countP_cons]
            cases gaining a <;> rfl
          rw [hcostly, hgaining, Nat.mul_add]
          omega

/-! ## Projections -/

/-- Seen through `f`, every step of `M` is a step of `N` or is not visible. -/
def ProjectsTo (M : Machine σ α) (N : Machine τ β) (f : σ → τ) : Prop :=
  ∀ s a s', M.step s a = some s' →
    f s' = f s ∨ ∃ b, N.step (f s) b = some (f s')

theorem ProjectsTo.reaches {N : Machine τ β} {f : σ → τ}
    (hproj : M.ProjectsTo N f) {s t : σ} (hst : M.Reaches s t) :
    N.Reaches (f s) (f t) := by
  refine hst.relation (R := fun s t => N.Reaches (f s) (f t))
    (fun s => Reaches.refl (f s)) ?_
  intro s t a u hreach hstep
  rcases hproj t a u hstep with heq | ⟨b, hb⟩
  · exact heq ▸ hreach
  · exact hreach.tail hb

end Machine

end Transition
