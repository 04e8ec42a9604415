import Plotter.Carriage

/-!
# The line a move draws

The calls of a move after its two direction settings are rounds: one step of the leading
axis, and in some rounds one of the other axis behind it. Counted at the ends of the
rounds, the steps of the other axis stay within one of the ideal line. Where both
displacements are whole steps, both counts are exact and the error is handed on as it was
found.

## Main definitions

* `Axis.stroke`: the call for one full step of an axis.
* `divisor?`: the number a move divides by.
* `RoundEnds lead post`: a cut in the calls is one between two rounds.
* `wholeMove_exact`: a move over whole steps.
* `moves_hug_line`: every move, after each of its rounds.
-/

namespace Plotter

open Lib

/-- The call for one full step of an axis. -/
def Axis.stroke : Axis → Event
  | .x => .ritStart 2 0
  | .y => .ritStart 0 2

theorem Axis.stroke_ne (a : Axis) : a.other.stroke ≠ a.stroke := by cases a <;> decide

/-- A call that is one full step of one axis steps it once and the other not at all. -/
theorem Event.Stroke.steps_eq {ev : Event} (h : ev.Stroke) (a : Axis) :
    ev.steps a = if ev = a.stroke then 1 else 0 := by
  rcases h with rfl | rfl <;> cases a <;> rfl

/-- Among full steps, those of an axis are counted by its calls. -/
theorem count_stroke {evs : List Event} (h : ∀ ev ∈ evs, ev.Stroke) (a : Axis) :
    (evs.count a.stroke : ℤ) = totalSteps a evs := by
  induction evs with
  | nil => rfl
  | cons ev evs ih =>
      have hev := (h ev List.mem_cons_self).steps_eq a
      rw [totalSteps_cons, hev, ← ih fun ev' hev' => h ev' (List.mem_cons_of_mem ev hev'),
        List.count_cons, add_comm]
      simp only [beq_iff_eq]
      push_cast
      rfl

/-- The calls of a move for an axis are its steps. -/
theorem count_moveStrokes (a : Axis) (sc : Scale) (object : GObject) (s : Drawer) :
    (((movePlan sc object s).strokes (moveTicks sc object s).1).count a.stroke : ℤ) =
      moveSteps a sc object s :=
  count_stroke (fun _ => Plan.stroke_of_mem) a

/-! ## Whole-step moves -/

/-- **A move over whole steps**, after any moves from the initial error: the directions are
set towards the target, each axis gets one call for every step of its displacement, and the
error is left as it was. -/
theorem wholeMove_exact {sc : Scale} {s₀ : Drawer} (hs₀ : s₀.error = 1 / 2)
    (objects : List GObject) {object : GObject}
    (hw : WholeMove sc object (triggerAll sc objects s₀)) :
    ∃ calls, (triggerMotors sc object (triggerAll sc objects s₀)).issued =
        (triggerAll sc objects s₀).issued ++
          .setDirection .x (decide ((triggerAll sc objects s₀).x0 < object.xCoord)) ::
          .setDirection .y (decide ((triggerAll sc objects s₀).y0 < object.yCoord)) :: calls ∧
      (∀ ev ∈ calls, ev = .ritStart 2 0 ∨ ev = .ritStart 0 2) ∧
      (calls.count (.ritStart 2 0) : ℚ) =
        |(object.xCoord - (triggerAll sc objects s₀).x0) * sc.scaledX| ∧
      (calls.count (.ritStart 0 2) : ℚ) =
        |(object.yCoord - (triggerAll sc objects s₀).y0) * sc.scaledY| ∧
      (triggerMotors sc object (triggerAll sc objects s₀)).error =
        (triggerAll sc objects s₀).error ∧
      (triggerMotors sc object (triggerAll sc objects s₀)).x0 = object.xCoord ∧
      (triggerMotors sc object (triggerAll sc objects s₀)).y0 = object.yCoord := by
  set s := triggerAll sc objects s₀ with hs
  have hband : InBand s.error := by
    apply triggerAll_inBand
    rw [hs₀]
    exact inBand_half
  have hcount : ∀ a : Axis,
      (((movePlan sc object s).strokes (moveTicks sc object s).1).count a.stroke : ℚ) =
        travel a sc object s := by
    intro a
    rw [← moveSteps_of_whole hw hband a, ← count_moveStrokes]
    exact (Int.cast_natCast _).symm
  refine ⟨_, triggerMotors_issued sc object s, fun ev => Plan.stroke_of_mem, hcount .x, hcount .y,
    error_of_whole hw hband, ?_, ?_⟩
  · exact triggerMotors_x0 sc object s
  · exact triggerMotors_y0 sc object s

/-- A move by two steps and one, after a move by half a step. -/
def fromHalf : GObject := { xCoord := 5 / 2, yCoord := 1 }

theorem wholeMove_exact_fromHalf : ∃ calls : List Event,
    (calls.count (.ritStart 2 0) : ℚ) = 2 ∧ (calls.count (.ritStart 0 2) : ℚ) = 1 ∧
      (triggerMotors ⟨1, 1⟩ fromHalf (triggerAll ⟨1, 1⟩ [{ xCoord := 1 / 2 }] {})).issued =
        (triggerAll ⟨1, 1⟩ [{ xCoord := 1 / 2 }] {}).issued ++
          .setDirection .x true :: .setDirection .y true :: calls := by
  have hx : (triggerAll ⟨1, 1⟩ [{ xCoord := 1 / 2 }] {}).x0 = 1 / 2 := by decide +kernel
  have hy : (triggerAll ⟨1, 1⟩ [{ xCoord := 1 / 2 }] {}).y0 = 0 := by decide +kernel
  have hw : WholeMove ⟨1, 1⟩ fromHalf (triggerAll ⟨1, 1⟩ [{ xCoord := 1 / 2 }] {}) := by
    intro a
    cases a
    · exact ⟨2, by rw [displacement, Drawer.recorded, hx]; norm_num [fromHalf, GObject.coord, Scale.on]⟩
    · exact ⟨1, by rw [displacement, Drawer.recorded, hy]; norm_num [fromHalf, GObject.coord, Scale.on]⟩
  obtain ⟨calls, hissued, -, hcx, hcy, -⟩ := wholeMove_exact rfl [{ xCoord := 1 / 2 }] hw
  rw [hx] at hcx hissued
  rw [hy] at hcy hissued
  refine ⟨calls, by rw [hcx]; norm_num [fromHalf], by rw [hcy]; norm_num [fromHalf], ?_⟩
  rw [hissued]
  norm_num [fromHalf]

/-! ## The rounds of a move -/

/-- The calls `pre` end where a round of the loop ends: nothing follows them, or the next
step of the leading axis does. -/
def RoundEnds (lead : Event) (post : List Event) : Prop := post = [] ∨ post.head? = some lead

/-- A cut between two rounds is a cut between two ticks. -/
theorem strokes_cut {lead other : Event} (hne : other ≠ lead) {bs : List Bool}
    {pre post : List Event} (h : strokes lead other bs = pre ++ post)
    (hend : RoundEnds lead post) : ∃ k ≤ bs.length, pre = strokes lead other (bs.take k) := by
  induction bs generalizing pre with
  | nil =>
      have hpre : pre = [] := (List.append_eq_nil_iff.mp h.symm).1
      exact ⟨0, le_rfl, hpre⟩
  | cons b bs ih =>
      cases pre with
      | nil => exact ⟨0, Nat.zero_le _, rfl⟩
      | cons ev pre =>
          -- a first round that emits may not be cut behind its leading step
          rw [strokes_cons] at h
          have htail : ∃ pre', ev :: pre = (if b then [lead, other] else [lead]) ++ pre' ∧
              strokes lead other bs = pre' ++ post := by
            cases b with
            | false =>
                obtain ⟨rfl, hrest⟩ := List.cons_eq_cons.mp h
                exact ⟨pre, rfl, hrest⟩
            | true =>
                obtain ⟨rfl, hrest⟩ := List.cons_eq_cons.mp h
                cases pre with
                | nil =>
                    have hpost : other :: strokes lead other bs = post := hrest
                    rcases hend with rfl | hhead
                    · cases hpost
                    · rw [← hpost] at hhead
                      exact absurd (Option.some_inj.mp hhead) hne
                | cons ev' pre =>
                    obtain ⟨rfl, hrest'⟩ := List.cons_eq_cons.mp hrest
                    exact ⟨pre, rfl, hrest'⟩
          obtain ⟨pre', hpre, hrest⟩ := htail
          obtain ⟨k, hk, rfl⟩ := ih hrest
          exact ⟨k + 1, Nat.succ_le_succ hk, by rw [hpre, List.take_succ_cons, strokes_cons]⟩

/-- The first ticks of a run are a shorter run. -/
theorem take_dda (δ : ℚ) {k n : ℕ} (hk : k ≤ n) (e : ℚ) : (dda δ n e).1.take k = (dda δ k e).1 := by
  obtain ⟨j, rfl⟩ := Nat.exists_eq_add_of_le hk
  rw [dda_add]
  exact List.take_left' (length_dda δ k e)

/-- A run at slope zero never emits. -/
theorem emissions_dda_zero (n : ℕ) {e : ℚ} (he : InBand e) : emissions (dda 0 n e).1 = 0 := by
  have hzero : (n : ℚ) * 0 = (0 : ℕ) := by simp
  exact (dda_whole le_rfl zero_le_one hzero he).1

/-- The leading axis of a plan. -/
def Plan.lead (p : Plan) : Axis := if p.xLeads then .x else .y

theorem Plan.strokes_eq (p : Plan) (bs : List Bool) :
    p.strokes bs = Plotter.strokes p.lead.stroke p.lead.other.stroke bs := by
  rw [Plan.strokes, Plan.lead]
  cases p.xLeads <;> rfl

theorem count_strokes_lead (a : Axis) (bs : List Bool) :
    (strokes a.stroke a.other.stroke bs).count a.stroke = bs.length := by
  induction bs with
  | nil => rfl
  | cons b bs ih =>
      rw [strokes_cons, List.count_append, ih, List.length_cons]
      cases b <;> simp [a.stroke_ne, add_comm]

theorem count_strokes_other (a : Axis) (bs : List Bool) :
    (strokes a.stroke a.other.stroke bs).count a.other.stroke = emissions bs := by
  induction bs with
  | nil => rfl
  | cons b bs ih =>
      rw [strokes_cons, List.count_append, ih, emissions, emissions, List.count_cons]
      cases b <;> simp [a.stroke_ne.symm, add_comm]

/-! ## The ideal line -/

/-- The number a move divides by; `none` when it does not divide. -/
def divisor? (sc : Scale) (object : GObject) (s : Drawer) : Option ℚ :=
  let s := aim sc object s
  if s.xDominating then
    if s.dx = 0 then none else some s.dx
  else
    if s.dy = 0 then none else some s.dy

theorem divisor?_ne_zero {sc : Scale} {object : GObject} {s : Drawer} {q : ℚ}
    (h : divisor? sc object s = some q) : q ≠ 0 := by
  simp only [divisor?] at h
  intro hq
  split_ifs at h with hdom hzero hzero <;>
    exact hzero (hq ▸ Option.some_inj.mp h)

/-- The slope of a move is the quotient by its divisor, and one half without one. -/
theorem deltaError_triggerMotors (sc : Scale) (object : GObject) (s : Drawer) :
    (triggerMotors sc object s).deltaError = (divisor? sc object s).elim (1 / 2)
      fun q => min (aim sc object s).dx (aim sc object s).dy / q := by
  have hdom : (aim sc object s).xDominating =
      decide ((aim sc object s).dx > (aim sc object s).dy) := rfl
  by_cases h : (aim sc object s).dx > (aim sc object s).dy
  · rw [decide_eq_true h] at hdom
    simp only [triggerMotors, divisor?, hdom, if_true, drawX_eq, iterate_xRound]
    by_cases hzero : (aim sc object s).dx = 0
    · simp only [if_pos hzero, Option.elim_none]
    · simp only [if_neg hzero, Option.elim_some, min_eq_right h.le]
  · rw [decide_eq_false h] at hdom
    simp only [triggerMotors, divisor?, hdom, Bool.false_eq_true, if_false, drawY_eq,
      iterate_yRound]
    by_cases hzero : (aim sc object s).dy = 0
    · simp only [if_pos hzero, Option.elim_none]
    · simp only [if_neg hzero, Option.elim_some, min_eq_left (not_lt.mp h)]

/-- The longer displacement divides the shorter one. -/
theorem slope_plan {dx dy : ℚ} (h : 0 < max dx dy) :
    (plan dx dy).slope = min dx dy / max dx dy := by
  by_cases hlt : dx > dy
  · rw [max_eq_left hlt.le] at h ⊢
    rw [min_eq_right hlt.le, plan, if_pos hlt]
    exact if_neg h.ne'
  · have hle := not_lt.mp hlt
    rw [max_eq_right hle] at h ⊢
    rw [min_eq_left hle, plan, if_neg hlt]
    exact if_neg h.ne'

section Line
variable {sc : Scale} {object : GObject} {s : Drawer}

theorem lead_movePlan : (movePlan sc object s).lead =
    if travel .x sc object s > travel .y sc object s then .x else .y := by
  change (plan (travel .x sc object s) (travel .y sc object s)).lead = _
  by_cases h : travel .x sc object s > travel .y sc object s
  · rw [plan, if_pos h, if_pos h]
    rfl
  · rw [plan, if_neg h, if_neg h]
    rfl

/-- An axis that is to stay where it is gets no step. -/
theorem moveSteps_of_displacement_zero (hs : InBand s.error) {a : Axis}
    (h : displacement a sc object s = 0) : moveSteps a sc object s = 0 := by
  have htravel : travel a sc object s = 0 := by rw [travel, h, abs_zero]
  rcases movePlan_cases a sc object s with ⟨hlead, hrounds⟩ | ⟨hlead, hrounds, -, hslope⟩
  · rw [moveSteps_of_leads hlead, hrounds, htravel, Nat.ceil_zero]
    rfl
  · rw [moveSteps_of_follows hlead, moveTicks]
    rcases hslope with hzero | hslope
    · rw [hrounds, hzero, Nat.ceil_zero]
      rfl
    · rw [hslope, htravel, zero_div, emissions_dda_zero _ hs]
      rfl

/-- **After every round** the steps of the axis that follows are within one of the ideal
line, and no more than those of the leading axis. -/
theorem round_hugs_line (hs : InBand s.error)
    (hpos : 0 < max (travel .x sc object s) (travel .y sc object s)) {pre post : List Event}
    (hcalls : (movePlan sc object s).strokes (moveTicks sc object s).1 = pre ++ post)
    (hend : RoundEnds (movePlan sc object s).lead.stroke post) :
    |(pre.count (movePlan sc object s).lead.other.stroke : ℚ) -
        pre.count (movePlan sc object s).lead.stroke *
          (min (travel .x sc object s) (travel .y sc object s) /
            max (travel .x sc object s) (travel .y sc object s))| < 1 ∧
      pre.count (movePlan sc object s).lead.other.stroke ≤
        pre.count (movePlan sc object s).lead.stroke := by
  have hslope := slope_plan hpos
  change (movePlan sc object s).slope = _ at hslope
  obtain ⟨h0, h1⟩ := movePlan_slope_mem sc object s
  rw [Plan.strokes_eq] at hcalls
  obtain ⟨k, hk, rfl⟩ := strokes_cut (Axis.stroke_ne _) hcalls hend
  rw [moveTicks, length_dda] at hk
  rw [count_strokes_lead, count_strokes_other, moveTicks, take_dda _ hk, length_dda, ← hslope]
  refine ⟨abs_emissions_sub_lt h0 h1 k hs, ?_⟩
  calc emissions (dda (movePlan sc object s).slope k s.error).1
      ≤ (dda (movePlan sc object s).slope k s.error).1.length := List.count_le_length
    _ = k := length_dda _ _ _

end Line

/-- **The line is hugged.** After any moves from the initial error the error is in its band.
Every further move divides by no zero, if it divides at all, never steps an axis that is to stay
where it is, makes `⌈D⌉` steps of the leading axis for the longer displacement `D`, and between
any two of its rounds the other axis is within one step of the ideal line. -/
theorem moves_hug_line {s₀ : Drawer} (hs₀ : s₀.error = 1 / 2) (sc : Scale)
    (objects : List GObject) (object : GObject) :
    let s := triggerAll sc objects s₀
    let dx := |(object.xCoord - s.x0) * sc.scaledX|
    let dy := |(object.yCoord - s.y0) * sc.scaledY|
    let lead : Axis := if dx > dy then .x else .y
    (-(1 / 2) < s.error ∧ s.error ≤ 1 / 2) ∧
    (∀ q, divisor? sc object s = some q → q ≠ 0) ∧
    (triggerMotors sc object s).deltaError =
      (divisor? sc object s).elim (1 / 2) (fun q => min dx dy / q) ∧
    ∃ calls, (triggerMotors sc object s).issued = s.issued ++
        .setDirection .x (decide (s.x0 < object.xCoord)) ::
        .setDirection .y (decide (s.y0 < object.yCoord)) :: calls ∧
      (∀ ev ∈ calls, ev = .ritStart 2 0 ∨ ev = .ritStart 0 2) ∧
      (∀ a, displacement a sc object s = 0 → a.stroke ∉ calls) ∧
      (0 < max dx dy → calls.count lead.stroke = ⌈max dx dy⌉₊ ∧
        ∀ pre post, calls = pre ++ post → RoundEnds lead.stroke post →
          |(pre.count lead.other.stroke : ℚ) -
              pre.count lead.stroke * (min dx dy / max dx dy)| < 1 ∧
            pre.count lead.other.stroke ≤ pre.count lead.stroke) := by
  intro s dx dy lead
  have hband : InBand s.error := by
    apply triggerAll_inBand
    rw [hs₀]
    exact inBand_half
  have hlead : (movePlan sc object s).lead = lead := lead_movePlan
  refine ⟨hband, fun q => divisor?_ne_zero, deltaError_triggerMotors sc object s, _,
    triggerMotors_issued sc object s, fun ev => Plan.stroke_of_mem, ?_, ?_⟩
  · intro a ha
    have hcount := count_moveStrokes a sc object s
    rw [moveSteps_of_displacement_zero hband ha] at hcount
    exact List.count_eq_zero.mp (Int.natCast_eq_zero.mp hcount)
  · intro hpos
    rw [← hlead]
    refine ⟨?_, fun pre post => round_hugs_line hband hpos⟩
    rw [Plan.strokes_eq, count_strokes_lead, moveTicks, length_dda]
    exact rounds_plan dx dy

/-- The first move of all, by two steps and one. -/
theorem moves_hug_line_first :
    (triggerMotors ⟨1, 1⟩ { xCoord := 2, yCoord := 1 } {}).deltaError = 1 / 2 ∧
    ∃ calls : List Event, calls.count (.ritStart 2 0) = 2 ∧
      ∀ pre post, calls = pre ++ post → RoundEnds (.ritStart 2 0) post →
        |(pre.count (.ritStart 0 2) : ℚ) - pre.count (.ritStart 2 0) * (1 / 2)| < 1 ∧
          pre.count (.ritStart 0 2) ≤ pre.count (.ritStart 2 0) := by
  have hdivisor : divisor? ⟨1, 1⟩ { xCoord := 2, yCoord := 1 } {} = some 2 := by decide +kernel
  obtain ⟨-, -, hdelta, calls, -, -, -, hline⟩ :=
    moves_hug_line (show ({} : Drawer).error = 1 / 2 from rfl) ⟨1, 1⟩ [] { xCoord := 2, yCoord := 1 }
  rw [triggerAll_nil, hdivisor] at hdelta
  norm_num [Axis.stroke, Axis.other] at hline hdelta
  exact ⟨hdelta.trans (by norm_num), calls, hline⟩

end Plotter
