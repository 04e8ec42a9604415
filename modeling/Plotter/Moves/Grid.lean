import Plotter.Moves.Drift

/-!
# Moves over the grid

Between positions that lie on whole steps a move never turns back and never goes past
its target, on either axis. So a sequence of such moves stays, at every point of every
move, within any box that holds the origin and all the targets.

## Main definitions

* `follow_prefix_moveEvents`: an axis in the middle of a move.
* `follow_prefix_mem_box`: the carriage stays in the box of its targets.
-/

namespace Plotter

open Lib

/-- A prefix of two lists in a row ends in the first or in the second. -/
theorem prefix_append_cases {α : Type*} {p l m : List α} (h : p <+: l ++ m) :
    p <+: l ∨ ∃ q, p = l ++ q ∧ q <+: m := by
  rcases List.prefix_or_prefix_of_prefix h (List.prefix_append l m) with hp | ⟨q, rfl⟩
  · exact .inl hp
  · exact .inr ⟨q, rfl, (List.prefix_append_right_inj l).mp h⟩

/-- The first strokes of a move ask for no more steps than all of them. -/
theorem totalSteps_prefix_le {evs pre : List Event} (hevs : ∀ ev ∈ evs, ev.Stroke) (a : Axis)
    (h : pre <+: evs) : totalSteps a pre ≤ totalSteps a evs := by
  obtain ⟨rest, rfl⟩ := h
  have := totalSteps_nonneg (fun ev hev => hevs ev (List.mem_append_right pre hev)) a
  rw [totalSteps_append]
  omega

/-- **In the middle of a move** an axis has made some of its steps, all one way. -/
theorem follow_prefix_moveEvents (a : Axis) (r : Rail) (sc : Scale) (object : GObject)
    (s : Drawer) {pre : List Event} (h : pre <+: moveEvents sc object s) :
    ∃ k, 0 ≤ k ∧ k ≤ moveSteps a sc object s ∧ (Rail.follow a r pre).pos =
      r.pos + heading (decide (s.recorded a < object.coord a)) * k := by
  have hstroke : ∀ ev ∈ (movePlan sc object s).strokes (moveTicks sc object s).1, ev.Stroke :=
    fun ev => Plan.stroke_of_mem
  have hall : 0 ≤ moveSteps a sc object s := totalSteps_nonneg hstroke a
  rcases List.prefix_cons_iff.mp h with rfl | ⟨pre, rfl, hx⟩
  · exact ⟨0, le_rfl, hall, by simp⟩
  rcases List.prefix_cons_iff.mp hx with rfl | ⟨pre, rfl, hy⟩
  · refine ⟨0, le_rfl, hall, ?_⟩
    cases a <;> simp [Rail.follow_cons, Rail.exec]
  · have hpre : ∀ ev ∈ pre, ev.Stroke := fun ev hev => hstroke ev (hy.subset hev)
    refine ⟨totalSteps a pre, totalSteps_nonneg hpre a, totalSteps_prefix_le hstroke a hy, ?_⟩
    rw [Rail.follow_cons, Rail.follow_cons, Rail.follow_of_stroke a _ _ hpre]
    cases a <;> rfl

section Box
variable {sc : Scale} {s : Drawer} {a : Axis}

/-- Over the grid the net steps are the recorded position. -/
theorem netSteps_onGrid (h : 0 ≤ sc.on a) (hs : s.Home) {objects : List GObject}
    (ho : ∀ o ∈ objects, o.OnGrid sc) : (netSteps a (triggerAll sc objects s) : ℚ) =
      (triggerAll sc objects s).recorded a * sc.on a :=
  sub_eq_zero.mp (drift_onGrid h hs ho)

/-- **The box.** An axis whose targets all lie between `lo` and `hi` on the grid is
between them at every point of every move. -/
theorem follow_prefix_mem_box (h : 0 ≤ sc.on a) (hs : s.Home) {lo hi : ℤ} (hlo : lo ≤ 0)
    (hhi : 0 ≤ hi) {objects : List GObject} (ho : ∀ o ∈ objects, o.OnGrid sc)
    (hbox : ∀ o ∈ objects, (lo : ℚ) ≤ o.coord a * sc.on a ∧ o.coord a * sc.on a ≤ hi)
    {pre : List Event} (hpre : pre <+: (triggerAll sc objects s).issued) :
    lo ≤ (Rail.follow a {} pre).pos ∧ (Rail.follow a {} pre).pos ≤ hi := by
  induction objects using List.reverseRecOn generalizing pre with
  | nil =>
      rw [triggerAll_nil, hs.issued_eq, List.prefix_nil] at hpre
      subst hpre
      exact ⟨hlo, hhi⟩
  | append_singleton os o ih =>
      have hos : ∀ o' ∈ os, o'.OnGrid sc := fun o' ho' => ho o' (by simp [ho'])
      have hbox' := fun o' (ho' : o' ∈ os) => hbox o' (by simp [ho'])
      rw [triggerAll_concat, triggerMotors_issued] at hpre
      rcases prefix_append_cases hpre with hp | ⟨q, rfl, hq⟩
      · exact ih hos hbox' hp
      -- the prefix ends inside the last move, between its start and its target
      set s' := triggerAll sc os s with hs'
      have hstart := ih hos hbox' (List.prefix_refl s'.issued)
      obtain ⟨k, hk0, hk, hpos⟩ :=
        follow_prefix_moveEvents a (Rail.follow a {} s'.issued) sc o s' hq
      have hend := netSteps_onGrid h hs ho
      rw [triggerAll_concat, ← hs', netSteps_triggerMotors, recorded_triggerMotors] at hend
      have htarget := hbox o (by simp)
      rw [← hend] at htarget
      have hlo' := Int.cast_le.mp htarget.1
      have hhi' := Int.cast_le.mp htarget.2
      rw [Rail.follow_append, hpos]
      change lo ≤ netSteps a s' + _ ∧ netSteps a s' + _ ≤ hi
      change lo ≤ netSteps a s' ∧ netSteps a s' ≤ hi at hstart
      by_cases hdir : s'.recorded a < o.coord a
      · simp only [heading, hdir, decide_true, if_true, one_mul] at hlo' hhi' ⊢
        omega
      · simp only [heading, hdir, decide_false, Bool.false_eq_true, if_false, neg_one_mul]
          at hlo' hhi' ⊢
        omega

end Box

end Plotter
