import Mathlib.Algebra.Group.Nat.Defs
import Mathlib.Data.List.Pairwise
import Mathlib.Tactic.Common

/-!
# Events kept apart

Events of which each comes at least a fixed gap after the one before: a window
of any length holds at most as many as gaps fit into it, and one more.  If only
the starts are kept apart, and each event comes somewhere between its start and
the next, a window holds at most one more than that.
-/

namespace Pacing

variable {α : Type*} {gap : ℕ} {time : α → ℕ} {events : List α}

def Spaced (gap : ℕ) (time : α → ℕ) (events : List α) : Prop :=
  events.Pairwise fun a b => time a + gap ≤ time b

theorem Spaced.concat (hspaced : Spaced gap time events) {a : α}
    (hlast : ∀ b ∈ events, time b + gap ≤ time a) :
    Spaced gap time (events ++ [a]) := by
  unfold Spaced
  rw [List.pairwise_append]
  refine ⟨hspaced, List.pairwise_singleton _ _, ?_⟩
  intro b hb c hc
  rw [List.mem_singleton.mp hc]
  exact hlast b hb

theorem Spaced.filter (hspaced : Spaced gap time events) (keep : α → Bool) :
    Spaced gap time (events.filter keep) :=
  hspaced.sublist List.filter_sublist

/-- Counted from any time before the first event, the last is as many gaps
later as there are events before it. -/
theorem Spaced.mul_le (hspaced : Spaced gap time events) {t last : ℕ}
    (hfirst : ∀ a ∈ events, t ≤ time a) (hlast : ∀ a ∈ events, time a ≤ last) :
    events.length * gap ≤ last - t + gap := by
  induction events generalizing t with
  | nil => simp
  | cons a events ih =>
      obtain ⟨hgaps, hrest⟩ := List.pairwise_cons.mp hspaced
      have hfirsta := hfirst a List.mem_cons_self
      have hlasta := hlast a List.mem_cons_self
      cases events with
      | nil => simp
      | cons b events =>
          have hb := hgaps b List.mem_cons_self
          have hlastb := hlast b (by simp)
          have hbound := ih hrest (t := time a + gap) hgaps
            fun c hc => hlast c (List.mem_cons_of_mem a hc)
          rw [List.length_cons, Nat.succ_mul]
          omega

/-! ## Delayed events -/

/-- Each event comes after its own start, and before the next one's. -/
structure Delayed (gap : ℕ) (start time : α → ℕ) (events : List α) : Prop where
  spaced : Spaced gap start events
  late : ∀ a ∈ events, start a ≤ time a
  before : events.Pairwise fun a b => time a ≤ start b

variable {start : α → ℕ}

theorem delayed_nil : Delayed gap start time [] :=
  ⟨List.Pairwise.nil, by simp, List.Pairwise.nil⟩

theorem Delayed.concat (hdelayed : Delayed gap start time events) {a : α}
    (hlast : ∀ b ∈ events, start b + gap ≤ start a) (hlate : start a ≤ time a)
    (hbefore : ∀ b ∈ events, time b ≤ start a) :
    Delayed gap start time (events ++ [a]) where
  spaced := hdelayed.spaced.concat hlast
  late b hb := by
    rcases List.mem_append.mp hb with hb | hb
    · exact hdelayed.late b hb
    · rw [List.mem_singleton.mp hb]
      exact hlate
  before := by
    rw [List.pairwise_append]
    refine ⟨hdelayed.before, List.pairwise_singleton _ _, ?_⟩
    intro b hb c hc
    rw [List.mem_singleton.mp hc]
    exact hbefore b hb

/-- The starts of all events in a window but the first lie in it as well. -/
theorem Delayed.window (hdelayed : Delayed gap start time events) (hgap : 0 < gap)
    (t w : ℕ) :
    (events.filter fun a => t ≤ time a ∧ time a ≤ t + w).length ≤ w / gap + 2 := by
  have hinside : ∀ a ∈ events.filter (fun a => t ≤ time a ∧ time a ≤ t + w),
      t ≤ time a ∧ time a ≤ t + w :=
    fun a ha => by simpa using (List.mem_filter.mp ha).2
  have hlate : ∀ a ∈ events.filter (fun a => t ≤ time a ∧ time a ≤ t + w),
      start a ≤ time a := fun a ha => hdelayed.late a (List.mem_filter.mp ha).1
  have hspaced := hdelayed.spaced.filter fun a => t ≤ time a ∧ time a ≤ t + w
  have hbefore := hdelayed.before.sublist
    (List.filter_sublist (p := fun a => t ≤ time a ∧ time a ≤ t + w))
  cases hevents : events.filter fun a => t ≤ time a ∧ time a ≤ t + w with
  | nil => exact Nat.zero_le _
  | cons a rest =>
      rw [hevents] at hinside hlate hspaced hbefore
      obtain ⟨hafter, _⟩ := List.pairwise_cons.mp hbefore
      have hbound := Spaced.mul_le (List.pairwise_cons.mp hspaced).2
        (fun b hb => Nat.le_trans (hinside a List.mem_cons_self).1 (hafter b hb))
        fun b hb => Nat.le_trans (hlate b (List.mem_cons_of_mem a hb))
          (hinside b (List.mem_cons_of_mem a hb)).2
      rw [Nat.add_sub_cancel_left] at hbound
      have hrest := (Nat.le_div_iff_mul_le hgap).mpr hbound
      rw [Nat.add_div_right w hgap] at hrest
      rw [List.length_cons]
      exact Nat.succ_le_succ hrest

end Pacing
