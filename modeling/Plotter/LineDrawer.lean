import Mathlib.Data.Rat.Floor
import Plotter.Basic
import Plotter.Lib.Dda
import Plotter.Lib.Loop

/-!
# The line drawer

`triggerMotors` moves the pen from the recorded position `(x0, y0)` to the target of
a command. The axis with the larger scaled displacement is stepped once per round;
the other axis is stepped when the accumulated error passes one half. The error is
a global: it is carried from one move to the next.

The numbers are exact rationals. A move acts on the motors only through the two
`setDirection` calls and the `RIT_start` calls it makes, so the model logs them in
`issued`, in program order. The trace output (`sprintf`, `ITM_write`) is not
modelled.

## Main definitions

* `Drawer`: the globals of a move.
* `triggerMotors`: one move, written as the source writes it.
* `plan`, `Plan.strokes`: which axis leads, for how many rounds, at what slope.
* `triggerMotors_spec`: a move is a run of a digital differential analyser.
-/

namespace Plotter

open Lib

/-- The globals a move reads and writes, with their initial values. -/
structure Drawer where
  x0 : ℚ := 0
  x1 : ℚ := 0
  y0 : ℚ := 0
  y1 : ℚ := 0
  dx : ℚ := 0
  dy : ℚ := 0
  deltaError : ℚ := 0
  error : ℚ := 1 / 2
  xDominating : Bool := false
  xDir : Bool := false
  yDir : Bool := false
  /-- Every motor call made so far. -/
  issued : List Event := []
  deriving DecidableEq, Repr

namespace Drawer

/-- Make one motor call. -/
def issue (s : Drawer) (ev : Event) : Drawer := { s with issued := s.issued ++ [ev] }

end Drawer

/-- Up to the choice of the dominating axis: the displacements and the directions. -/
def aim (sc : Scale) (object : GObject) (s : Drawer) : Drawer :=
  let s := { s with x1 := object.xCoord, y1 := object.yCoord }
  let s := { s with dx := (s.x1 - s.x0) * sc.scaledX, dy := (s.y1 - s.y0) * sc.scaledY }
  let s := { s with dx := |s.dx|, dy := |s.dy| }
  let s := { s with xDir := decide (s.x0 < s.x1), yDir := decide (s.y0 < s.y1) }
  let s := s.issue (.setDirection .x s.xDir)
  let s := s.issue (.setDirection .y s.yDir)
  { s with xDominating := decide (s.dx > s.dy) }

/-- One round of `while (dx > 0)`. -/
def xRound (s : Drawer) : Drawer :=
  let s := s.issue (.ritStart 2 0)
  let s := { s with error := s.error + s.deltaError }
  let s := if s.error > 1 / 2 then
      let s := s.issue (.ritStart 0 2)
      { s with error := s.error - 1 }
    else s
  { s with dx := s.dx - 1 }

/-- One round of `while (dy > 0)`. -/
def yRound (s : Drawer) : Drawer :=
  let s := s.issue (.ritStart 0 2)
  let s := { s with error := s.error + s.deltaError }
  let s := if s.error > 1 / 2 then
      let s := s.issue (.ritStart 2 0)
      { s with error := s.error - 1 }
    else s
  { s with dy := s.dy - 1 }

/-- The branch of a move that the X axis dominates. `⌈dx⌉₊` rounds are enough for
the loop, see `drawX_exits`. -/
def drawX (s : Drawer) : Drawer :=
  let s := { s with deltaError := if s.dx = 0 then 1 / 2 else s.dy / s.dx }
  whileLoop (fun s => s.dx > 0) xRound ⌈s.dx⌉₊ s

/-- The branch of a move that the Y axis dominates. -/
def drawY (s : Drawer) : Drawer :=
  let s := { s with deltaError := if s.dy = 0 then 1 / 2 else s.dx / s.dy }
  whileLoop (fun s => s.dy > 0) yRound ⌈s.dy⌉₊ s

/-- One move to the target of `object`. -/
def triggerMotors (sc : Scale) (object : GObject) (s : Drawer) : Drawer :=
  let s := aim sc object s
  let s := if s.xDominating then drawX s else drawY s
  { s with x0 := s.x0 + (s.x1 - s.x0), y0 := s.y0 + (s.y1 - s.y0) }

/-- Several moves in a row. -/
def triggerAll (sc : Scale) (objects : List GObject) (s : Drawer) : Drawer :=
  objects.foldl (fun s object => triggerMotors sc object s) s

@[simp] theorem triggerAll_nil (sc : Scale) (s : Drawer) : triggerAll sc [] s = s := rfl

@[simp] theorem triggerAll_concat (sc : Scale) (os : List GObject) (o : GObject) (s : Drawer) :
    triggerAll sc (os ++ [o]) s = triggerMotors sc o (triggerAll sc os s) := by
  simp [triggerAll]

/-! ## What a move amounts to

The two branches are copies of one loop with the axes exchanged. `plan` reads off
the displacements which copy runs, for how many rounds and at what slope. -/

/-- The leading axis, the number of rounds and the slope of a move. -/
structure Plan where
  xLeads : Bool
  rounds : ℕ
  slope : ℚ

/-- The plan for the absolute scaled displacements `dx` and `dy`. -/
def plan (dx dy : ℚ) : Plan :=
  if dx > dy then ⟨true, ⌈dx⌉₊, if dx = 0 then 1 / 2 else dy / dx⟩
  else ⟨false, ⌈dy⌉₊, if dy = 0 then 1 / 2 else dx / dy⟩

/-- One `RIT_start` call for the leading axis in every round, and one for the other
axis in the rounds whose tick emitted. -/
def strokes (lead other : Event) (bs : List Bool) : List Event :=
  bs.flatMap fun b => if b then [lead, other] else [lead]

/-- The `RIT_start` calls of a move whose ticks are `bs`. -/
def Plan.strokes (p : Plan) (bs : List Bool) : List Event :=
  if p.xLeads then Plotter.strokes (.ritStart 2 0) (.ritStart 0 2) bs
  else Plotter.strokes (.ritStart 0 2) (.ritStart 2 0) bs

theorem strokes_cons (lead other : Event) (b : Bool) (bs : List Bool) :
    strokes lead other (b :: bs) =
      (if b then [lead, other] else [lead]) ++ strokes lead other bs := rfl

theorem plan_slope_mem {dx dy : ℚ} (hx : 0 ≤ dx) (hy : 0 ≤ dy) :
    0 ≤ (plan dx dy).slope ∧ (plan dx dy).slope ≤ 1 := by
  by_cases h : dx > dy
  · have hpos : 0 < dx := lt_of_le_of_lt hy h
    simp only [plan, if_pos h, if_neg hpos.ne']
    exact ⟨div_nonneg hy hx, (div_le_one hpos).mpr h.le⟩
  · simp only [plan, if_neg h]
    by_cases h0 : dy = 0
    · rw [if_pos h0]; norm_num
    · rw [if_neg h0]
      exact ⟨div_nonneg hx hy, (div_le_one (lt_of_le_of_ne hy (Ne.symm h0))).mpr (not_lt.mp h)⟩

/-- The leading axis has the longer displacement, and sets the number of rounds. -/
theorem rounds_plan (dx dy : ℚ) : (plan dx dy).rounds = ⌈max dx dy⌉₊ := by
  by_cases h : dx > dy
  · rw [plan, if_pos h, max_eq_left h.le]
  · rw [plan, if_neg h, max_eq_right (not_lt.mp h)]

/-! ## The loops -/

/-- A round is one tick: the error moves as the analyser moves it, and the calls
are the strokes of that tick. -/
theorem xRound_eq (s : Drawer) :
    xRound s = { s with
      dx := s.dx - 1
      error := (ddaTick s.deltaError s.error).2
      issued := s.issued ++
        strokes (.ritStart 2 0) (.ritStart 0 2) [(ddaTick s.deltaError s.error).1] } := by
  by_cases h : 1 / 2 < s.error + s.deltaError
  · simp only [xRound, Drawer.issue, ddaTick, gt_iff_lt, if_pos h]
    simp [strokes]
  · simp only [xRound, Drawer.issue, ddaTick, gt_iff_lt, if_neg h]
    simp [strokes]

theorem yRound_eq (s : Drawer) :
    yRound s = { s with
      dy := s.dy - 1
      error := (ddaTick s.deltaError s.error).2
      issued := s.issued ++
        strokes (.ritStart 0 2) (.ritStart 2 0) [(ddaTick s.deltaError s.error).1] } := by
  by_cases h : 1 / 2 < s.error + s.deltaError
  · simp only [yRound, Drawer.issue, ddaTick, gt_iff_lt, if_pos h]
    simp [strokes]
  · simp only [yRound, Drawer.issue, ddaTick, gt_iff_lt, if_neg h]
    simp [strokes]

theorem iterate_xRound (n : ℕ) (s : Drawer) :
    xRound^[n] s = { s with
      dx := s.dx - n
      error := (dda s.deltaError n s.error).2
      issued := s.issued ++
        strokes (.ritStart 2 0) (.ritStart 0 2) (dda s.deltaError n s.error).1 } := by
  induction n generalizing s with
  | zero => simp [strokes]
  | succ n ih =>
      rw [Function.iterate_succ_apply, ih, xRound_eq]
      simp only [dda_succ, strokes_cons, List.append_assoc, Nat.cast_add, Nat.cast_one,
        sub_sub, add_comm (1 : ℚ)]
      simp [strokes]

theorem iterate_yRound (n : ℕ) (s : Drawer) :
    yRound^[n] s = { s with
      dy := s.dy - n
      error := (dda s.deltaError n s.error).2
      issued := s.issued ++
        strokes (.ritStart 0 2) (.ritStart 2 0) (dda s.deltaError n s.error).1 } := by
  induction n generalizing s with
  | zero => simp [strokes]
  | succ n ih =>
      rw [Function.iterate_succ_apply, ih, yRound_eq]
      simp only [dda_succ, strokes_cons, List.append_assoc, Nat.cast_add, Nat.cast_one,
        sub_sub, add_comm (1 : ℚ)]
      simp [strokes]

/-- The loop over `dx` runs exactly `⌈dx⌉₊` rounds: in round `i` the guard reads
`dx - i`, which is positive as long as `i < ⌈dx⌉₊`. -/
theorem drawX_eq (s : Drawer) :
    drawX s = xRound^[⌈s.dx⌉₊]
      { s with deltaError := if s.dx = 0 then 1 / 2 else s.dy / s.dx } := by
  refine whileLoop_eq_iterate_of_exit (fun i hi => ?_) ?_ le_rfl
  · rw [iterate_xRound]
    exact sub_pos.mpr (Nat.lt_ceil.mp hi)
  · rw [iterate_xRound]
    exact not_lt.mpr (sub_nonpos.mpr (Nat.le_ceil s.dx))

theorem drawY_eq (s : Drawer) :
    drawY s = yRound^[⌈s.dy⌉₊]
      { s with deltaError := if s.dy = 0 then 1 / 2 else s.dx / s.dy } := by
  refine whileLoop_eq_iterate_of_exit (fun i hi => ?_) ?_ le_rfl
  · rw [iterate_yRound]
    exact sub_pos.mpr (Nat.lt_ceil.mp hi)
  · rw [iterate_yRound]
    exact not_lt.mpr (sub_nonpos.mpr (Nat.le_ceil s.dy))

/-- The loop ends because its guard fails, not because its fuel does. -/
theorem drawX_exits (s : Drawer) : ¬ (drawX s).dx > 0 := by
  rw [drawX_eq, iterate_xRound]
  exact not_lt.mpr (sub_nonpos.mpr (Nat.le_ceil s.dx))

theorem drawY_exits (s : Drawer) : ¬ (drawY s).dy > 0 := by
  rw [drawY_eq, iterate_yRound]
  exact not_lt.mpr (sub_nonpos.mpr (Nat.le_ceil s.dy))

/-! ## The move -/

/-- The plan of a move from the recorded position to the target. -/
def movePlan (sc : Scale) (object : GObject) (s : Drawer) : Plan :=
  plan |(object.xCoord - s.x0) * sc.scaledX| |(object.yCoord - s.y0) * sc.scaledY|

/-- The ticks of a move, and the error they leave. -/
def moveTicks (sc : Scale) (object : GObject) (s : Drawer) : List Bool × ℚ :=
  dda (movePlan sc object s).slope (movePlan sc object s).rounds s.error

/-- The motor calls of a move: two direction settings, then the strokes. -/
def moveEvents (sc : Scale) (object : GObject) (s : Drawer) : List Event :=
  .setDirection .x (decide (s.x0 < object.xCoord)) ::
  .setDirection .y (decide (s.y0 < object.yCoord)) ::
  (movePlan sc object s).strokes (moveTicks sc object s).1

/-- Either loop performs the plan of the displacements it starts from. -/
theorem draw_spec (s : Drawer) (hdom : s.xDominating = decide (s.dx > s.dy)) :
    let s' := if s.xDominating then drawX s else drawY s
    let ticks := dda (plan s.dx s.dy).slope (plan s.dx s.dy).rounds s.error
    s'.x0 = s.x0 ∧ s'.x1 = s.x1 ∧ s'.y0 = s.y0 ∧ s'.y1 = s.y1 ∧ s'.error = ticks.2 ∧
      s'.issued = s.issued ++ (plan s.dx s.dy).strokes ticks.1 := by
  by_cases h : s.dx > s.dy
  · have hx : s.xDominating = true := by rw [hdom, decide_eq_true h]
    simp only [hx, if_true, drawX_eq, iterate_xRound, plan, if_pos h, Plan.strokes, and_self]
  · have hy : s.xDominating = false := by rw [hdom, decide_eq_false h]
    simp only [hy, Bool.false_eq_true, if_false, drawY_eq, iterate_yRound, plan, if_neg h,
      Plan.strokes, and_self]

/-- **A move is a run of the analyser** along the leading axis. It records the target
as the new position, leaves the error of the run and adds its calls to the log. -/
theorem triggerMotors_spec (sc : Scale) (object : GObject) (s : Drawer) :
    (triggerMotors sc object s).x0 = object.xCoord ∧
    (triggerMotors sc object s).y0 = object.yCoord ∧
    (triggerMotors sc object s).error = (moveTicks sc object s).2 ∧
    (triggerMotors sc object s).issued = s.issued ++ moveEvents sc object s := by
  obtain ⟨hx0, hx1, hy0, hy1, herr, hiss⟩ := draw_spec (aim sc object s) rfl
  refine ⟨?_, ?_, herr, ?_⟩
  · simp only [triggerMotors, hx0, hx1]
    exact add_sub_cancel _ _
  · simp only [triggerMotors, hy0, hy1]
    exact add_sub_cancel _ _
  · refine hiss.trans ?_
    simp only [aim, Drawer.issue, List.append_assoc, List.singleton_append]
    rfl

@[simp] theorem triggerMotors_x0 (sc : Scale) (object : GObject) (s : Drawer) :
    (triggerMotors sc object s).x0 = object.xCoord := (triggerMotors_spec sc object s).1

@[simp] theorem triggerMotors_y0 (sc : Scale) (object : GObject) (s : Drawer) :
    (triggerMotors sc object s).y0 = object.yCoord := (triggerMotors_spec sc object s).2.1

theorem triggerMotors_error (sc : Scale) (object : GObject) (s : Drawer) :
    (triggerMotors sc object s).error = (moveTicks sc object s).2 :=
  (triggerMotors_spec sc object s).2.2.1

theorem triggerMotors_issued (sc : Scale) (object : GObject) (s : Drawer) :
    (triggerMotors sc object s).issued = s.issued ++ moveEvents sc object s :=
  (triggerMotors_spec sc object s).2.2.2

theorem movePlan_slope_mem (sc : Scale) (object : GObject) (s : Drawer) :
    0 ≤ (movePlan sc object s).slope ∧ (movePlan sc object s).slope ≤ 1 :=
  plan_slope_mem (abs_nonneg _) (abs_nonneg _)

/-- **The error stays in its band** over any sequence of moves, to any targets. -/
theorem triggerAll_inBand (sc : Scale) (objects : List GObject) {s : Drawer}
    (hs : InBand s.error) : InBand (triggerAll sc objects s).error := by
  induction objects generalizing s with
  | nil => exact hs
  | cons o os ih =>
      refine ih (s := triggerMotors sc o s) ?_
      rw [triggerMotors_error]
      obtain ⟨h0, h1⟩ := movePlan_slope_mem sc o s
      exact dda_inBand h0 h1 _ hs

end Plotter
