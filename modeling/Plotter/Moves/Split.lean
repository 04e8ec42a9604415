import Mathlib.Analysis.Convex.Segment
import Plotter.Moves.Line

/-!
# A move in two parts

A straight move may be cut at a point on its way. The first part leaves an error
behind, and the second computes its displacements, its dominating axis and its slope
anew from the point it starts at. A part of a segment has the slope of the segment and
the same leading axis, so the two runs of the analyser are one run cut in two, as long
as the cut is a whole number of steps of the leading axis away from either end.

## Main definitions

* `directed`: the `RIT_start` calls of a log with the directions in force.
* `dominant`: the dominating axis of a move.
* `Alike`: the states that no later move tells apart.
* `split_move`: both ways of making the move make the same calls.
-/

namespace Plotter

open Lib

/-! ## The calls with their directions -/

/-- The directions both motors are set to. -/
structure Dirs where
  xDir : Bool
  yDir : Bool
  deriving DecidableEq, Repr

namespace Dirs

/-- The effect of one motor call on the directions. -/
def turn (d : Dirs) : Event → Dirs
  | .setDirection .x xDir => { d with xDir := xDir }
  | .setDirection .y yDir => { d with yDir := yDir }
  | .ritStart _ _ => d

end Dirs

/-- The `RIT_start` calls of a log in order, each with the directions in force when it is
made; `d` are the directions before the log. -/
def directed (d : Dirs) : List Event → List (Dirs × Event)
  | [] => []
  | .setDirection a b :: evs => directed (d.turn (.setDirection a b)) evs
  | .ritStart xCount yCount :: evs => (d, .ritStart xCount yCount) :: directed d evs

/-- A log goes on from the directions its first part leaves. -/
theorem directed_append (d : Dirs) (evs fvs : List Event) :
    directed d (evs ++ fvs) = directed d evs ++ directed (evs.foldl Dirs.turn d) fvs := by
  induction evs generalizing d with
  | nil => rfl
  | cons ev evs ih =>
      cases ev with
      | setDirection a b => exact ih _
      | ritStart xCount yCount => exact congrArg _ (ih d)

/-- Strokes keep the directions, and all of them are `RIT_start` calls. -/
theorem directed_of_stroke (d : Dirs) {evs : List Event} (h : ∀ ev ∈ evs, ev.Stroke) :
    directed d evs = evs.map (Prod.mk d) ∧ evs.foldl Dirs.turn d = d := by
  induction evs with
  | nil => exact ⟨rfl, rfl⟩
  | cons ev evs ih =>
      obtain ⟨hcalls, hdirs⟩ := ih fun ev' hev' => h ev' (List.mem_cons_of_mem ev hev')
      rcases h ev List.mem_cons_self with rfl | rfl
      · exact ⟨congrArg _ hcalls, hdirs⟩
      · exact ⟨congrArg _ hcalls, hdirs⟩

/-- The directions a move sets. -/
def moveDirs (object : GObject) (s : Drawer) : Dirs :=
  ⟨decide (s.x0 < object.xCoord), decide (s.y0 < object.yCoord)⟩

/-- A move makes all its strokes in the directions it sets, whatever they were before. -/
theorem directed_moveEvents (d : Dirs) (sc : Scale) (object : GObject) (s : Drawer) :
    directed d (moveEvents sc object s) =
        ((movePlan sc object s).strokes (moveTicks sc object s).1).map
          (Prod.mk (moveDirs object s)) ∧
      (moveEvents sc object s).foldl Dirs.turn d = moveDirs object s :=
  directed_of_stroke (moveDirs object s) fun _ => Plan.stroke_of_mem

theorem Plan.strokes_append (p : Plan) (bs cs : List Bool) :
    p.strokes (bs ++ cs) = p.strokes bs ++ p.strokes cs := by
  simp only [Plan.strokes_eq, Plotter.strokes, List.flatMap_append]

/-! ## A part of a move -/

/-- The axis that dominates a move, as the source chooses it. -/
def dominant (sc : Scale) (object : GObject) (s : Drawer) : Axis :=
  if (aim sc object s).xDominating then .x else .y

theorem dominant_eq (sc : Scale) (object : GObject) (s : Drawer) :
    dominant sc object s =
      if travel .x sc object s > travel .y sc object s then .x else .y := by
  change (if decide (travel .x sc object s > travel .y sc object s) = true then Axis.x else .y) = _
  simp only [decide_eq_true_eq]

/-- The dominating axis has the longer travel. -/
theorem travel_dominant (sc : Scale) (object : GObject) (s : Drawer) :
    travel (dominant sc object s) sc object s =
      max (travel .x sc object s) (travel .y sc object s) := by
  rw [dominant_eq]
  by_cases h : travel .x sc object s > travel .y sc object s
  · rw [if_pos h, max_eq_left h.le]
  · rw [if_neg h, max_eq_right (not_lt.mp h)]

/-- Displacements in a fixed proportion have the same leading axis and the same slope. -/
theorem plan_mul {t : ℚ} (ht : 0 < t) (dx dy : ℚ) :
    plan (t * dx) (t * dy) = { plan dx dy with rounds := ⌈t * max dx dy⌉₊ } := by
  have hquot : ∀ p q : ℚ, (if t * q = 0 then 1 / 2 else t * p / (t * q)) =
      if q = 0 then 1 / 2 else p / q := by
    intro p q
    simp only [mul_eq_zero, ht.ne', false_or, mul_div_mul_left p q ht.ne']
  by_cases h : dx > dy
  · have hmul : t * dx > t * dy := mul_lt_mul_of_pos_left h ht
    rw [plan, if_pos hmul, plan, if_pos h, hquot, max_eq_left h.le]
  · have hmul : ¬ t * dx > t * dy := not_lt.mpr (mul_le_mul_of_nonneg_left (not_lt.mp h) ht.le)
    rw [plan, if_neg hmul, plan, if_neg h, hquot, max_eq_right (not_lt.mp h)]

theorem rounds_movePlan (sc : Scale) (object : GObject) (s : Drawer) :
    (movePlan sc object s).rounds = ⌈travel (dominant sc object s) sc object s⌉₊ := by
  rw [travel_dominant]
  exact rounds_plan _ _

/-- A share `t` of the move from the state `s` to `whole`: from the state `r` to
`object` both coordinates go that share of the way. -/
structure IsPart (t : ℚ) (whole : GObject) (s : Drawer) (object : GObject) (r : Drawer) : Prop where
  pos : 0 < t
  coord : ∀ a, object.coord a - r.recorded a = t * (whole.coord a - s.recorded a)

namespace IsPart
variable {t : ℚ} {sc : Scale} {whole object : GObject} {s r : Drawer}

theorem displacement_eq (h : IsPart t whole s object r) (a : Axis) :
    displacement a sc object r = t * displacement a sc whole s := by
  rw [displacement, displacement, h.coord, mul_assoc]

theorem travel_eq (h : IsPart t whole s object r) (a : Axis) :
    travel a sc object r = t * travel a sc whole s := by
  rw [travel, travel, h.displacement_eq, abs_mul, abs_of_pos h.pos]

/-- A part of a move has its directions. -/
theorem moveDirs_eq (h : IsPart t whole s object r) : moveDirs object r = moveDirs whole s := by
  have hlt : ∀ a, r.recorded a < object.coord a ↔ s.recorded a < whole.coord a := by
    intro a
    rw [← sub_pos, h.coord, mul_pos_iff_of_pos_left h.pos, sub_pos]
  have hx : r.x0 < object.xCoord ↔ s.x0 < whole.xCoord := hlt .x
  have hy : r.y0 < object.yCoord ↔ s.y0 < whole.yCoord := hlt .y
  simp only [moveDirs, hx, hy]

/-- A part of a move has its leading axis and its slope, and rounds of its own. -/
theorem movePlan_eq (h : IsPart t whole s object r) :
    movePlan sc object r =
      { movePlan sc whole s with
        rounds := ⌈t * travel (dominant sc whole s) sc whole s⌉₊ } := by
  change plan (travel .x sc object r) (travel .y sc object r) = _
  rw [h.travel_eq, h.travel_eq, plan_mul h.pos, travel_dominant]
  rfl

end IsPart

/-! ## States that moves do not tell apart -/

/-- The same position, the same error and the same directed calls so far. -/
structure Alike (s s' : Drawer) : Prop where
  x0_eq : s.x0 = s'.x0
  y0_eq : s.y0 = s'.y0
  error_eq : s.error = s'.error
  directed_eq : ∀ d, directed d s.issued = directed d s'.issued

namespace Alike
variable {s s' : Drawer}

theorem triggerMotors (h : Alike s s') (sc : Scale) (object : GObject) :
    Alike (triggerMotors sc object s) (triggerMotors sc object s') := by
  have hplan : movePlan sc object s = movePlan sc object s' := by
    rw [movePlan, movePlan, h.x0_eq, h.y0_eq]
  have hticks : moveTicks sc object s = moveTicks sc object s' := by
    rw [moveTicks, moveTicks, hplan, h.error_eq]
  have hdirs : moveDirs object s = moveDirs object s' := by
    rw [moveDirs, moveDirs, h.x0_eq, h.y0_eq]
  refine ⟨?_, ?_, ?_, fun d => ?_⟩
  · rw [triggerMotors_x0, triggerMotors_x0]
  · rw [triggerMotors_y0, triggerMotors_y0]
  · rw [triggerMotors_error, triggerMotors_error, hticks]
  · rw [triggerMotors_issued, triggerMotors_issued, directed_append, directed_append,
      h.directed_eq, (directed_moveEvents _ sc object s).1, (directed_moveEvents _ sc object s').1,
      hplan, hticks, hdirs]

theorem triggerAll (h : Alike s s') (sc : Scale) (objects : List GObject) :
    Alike (triggerAll sc objects s) (triggerAll sc objects s') := by
  induction objects generalizing s s' with
  | nil => exact h
  | cons object objects ih => exact ih (h.triggerMotors sc object)

end Alike

/-! ## The cut -/

/-- `P` is on the open segment from the recorded position to the target `B`. -/
def OnTheWay (P B : GObject) (s : Drawer) : Prop :=
  (P.xCoord, P.yCoord) ∈ openSegment ℚ (s.x0, s.y0) (B.xCoord, B.yCoord)

/-- The moves to a point on the way and on from there are parts of the move. -/
theorem OnTheWay.parts {P B : GObject} {s : Drawer} (h : OnTheWay P B s) (sc : Scale) :
    ∃ t u : ℚ, t + u = 1 ∧ IsPart t B s P s ∧ IsPart u B s B (triggerMotors sc P s) := by
  obtain ⟨u, t, hu, ht, hsum, hpoint⟩ := h
  obtain ⟨hx, hy⟩ := Prod.mk.inj hpoint
  have hP : ∀ a, P.coord a = u * s.recorded a + t * B.coord a := by
    intro a
    cases a with
    | x => exact hx.symm
    | y => exact hy.symm
  have hu' : u = 1 - t := eq_sub_of_add_eq hsum
  refine ⟨t, u, by rw [add_comm, hsum], ⟨ht, fun a => ?_⟩, ⟨hu, fun a => ?_⟩⟩
  · rw [hP, hu']
    ring
  · rw [recorded_triggerMotors, hP, hu']
    ring

/-- A whole number of rounds is cut into two whole numbers of rounds. -/
theorem ceil_parts {t u D : ℚ} (hsum : t + u = 1) (ht : 0 ≤ t) (hu : 0 ≤ u) (hD : 0 ≤ D)
    (hwhole : ∃ n : ℤ, D = n) (hpart : ∃ n : ℤ, t * D = n) :
    ⌈D⌉₊ = ⌈t * D⌉₊ + ⌈u * D⌉₊ := by
  obtain ⟨n, hn⟩ := hwhole
  obtain ⟨m, hm⟩ := hpart
  have hrest : u * D = (n - m : ℤ) := by
    push_cast
    rw [← hn, ← hm, eq_sub_of_add_eq' hsum]
    ring
  have hm0 : (0 : ℚ) ≤ m := hm ▸ mul_nonneg ht hD
  have hr0 : (0 : ℚ) ≤ (n - m : ℤ) := hrest ▸ mul_nonneg hu hD
  rw [hrest, hm, hn, Nat.ceil_intCast, Nat.ceil_intCast, Nat.ceil_intCast]
  have hm0' : 0 ≤ m := by exact_mod_cast hm0
  have hr0' : 0 ≤ n - m := by exact_mod_cast hr0
  omega

/-- A travel is whole where the displacement is. -/
theorem travel_whole {a : Axis} {sc : Scale} {object : GObject} {s : Drawer}
    (h : ∃ n : ℤ, displacement a sc object s = n) : ∃ n : ℤ, travel a sc object s = n := by
  obtain ⟨n, hn⟩ := h
  exact ⟨|n|, by rw [travel, hn, Int.cast_abs]⟩

section Cut
variable {sc : Scale} {s : Drawer} {P B : GObject}

/-- The ticks of the whole move are the ticks of its parts. -/
theorem moveTicks_cut {t u : ℚ} (hsum : t + u = 1) (hfirst : IsPart t B s P s)
    (hrest : IsPart u B s B (triggerMotors sc P s))
    (hB : ∃ n : ℤ, displacement (dominant sc B s) sc B s = n)
    (hP : ∃ n : ℤ, displacement (dominant sc B s) sc P s = n) :
    moveTicks sc B s = ((moveTicks sc P s).1 ++ (moveTicks sc B (triggerMotors sc P s)).1,
      (moveTicks sc B (triggerMotors sc P s)).2) := by
  have hrounds : (movePlan sc B s).rounds =
      (movePlan sc P s).rounds + (movePlan sc B (triggerMotors sc P s)).rounds := by
    rw [hfirst.movePlan_eq, hrest.movePlan_eq, rounds_movePlan]
    refine ceil_parts hsum hfirst.pos.le hrest.pos.le (travel_nonneg _ sc B s) (travel_whole hB) ?_
    rw [← hfirst.travel_eq]
    exact travel_whole hP
  have hslopeP : (movePlan sc P s).slope = (movePlan sc B s).slope := by rw [hfirst.movePlan_eq]
  have hslopeB : (movePlan sc B (triggerMotors sc P s)).slope = (movePlan sc B s).slope := by
    rw [hrest.movePlan_eq]
  rw [moveTicks, hrounds, dda_add]
  simp only [moveTicks, hslopeP, hslopeB, triggerMotors_error]

theorem directed_cut {t u : ℚ} (hfirst : IsPart t B s P s)
    (hrest : IsPart u B s B (triggerMotors sc P s))
    (hticks : (moveTicks sc B s).1 =
      (moveTicks sc P s).1 ++ (moveTicks sc B (triggerMotors sc P s)).1) (d : Dirs) :
    directed d (moveEvents sc P s ++ moveEvents sc B (triggerMotors sc P s)) =
      directed d (moveEvents sc B s) := by
  have hstrokesP : (movePlan sc P s).strokes = (movePlan sc B s).strokes := by
    rw [hfirst.movePlan_eq]
    rfl
  have hstrokesB : (movePlan sc B (triggerMotors sc P s)).strokes =
      (movePlan sc B s).strokes := by
    rw [hrest.movePlan_eq]
    rfl
  rw [directed_append, (directed_moveEvents d sc P s).1, (directed_moveEvents _ sc B _).1,
    (directed_moveEvents d sc B s).1, hfirst.moveDirs_eq, hrest.moveDirs_eq, hstrokesP,
    hstrokesB, hticks, Plan.strokes_append, List.map_append]

/-- Both ways leave states that no later move tells apart. -/
theorem alike_cut (hway : OnTheWay P B s)
    (hB : ∃ n : ℤ, displacement (dominant sc B s) sc B s = n)
    (hP : ∃ n : ℤ, displacement (dominant sc B s) sc P s = n) :
    Alike (triggerMotors sc B (triggerMotors sc P s)) (triggerMotors sc B s) := by
  obtain ⟨t, u, hsum, hfirst, hrest⟩ := hway.parts sc
  have hticks := moveTicks_cut hsum hfirst hrest hB hP
  refine ⟨?_, ?_, ?_, fun d => ?_⟩
  · rw [triggerMotors_x0, triggerMotors_x0]
  · rw [triggerMotors_y0, triggerMotors_y0]
  · rw [triggerMotors_error, triggerMotors_error, hticks]
  · rw [triggerMotors_issued, triggerMotors_issued, triggerMotors_issued, List.append_assoc,
      directed_append d s.issued, directed_append d s.issued,
      directed_cut hfirst hrest (congrArg Prod.fst hticks)]

/-- **A move may be made in two parts.** Where the displacements of the dominating axis to the
target `B` and to the point `P` on the way are whole, the moves to `P` and on to `B` make the
`RIT_start` calls of the move to `B`, in the same directions, and leave the same error and
position. -/
theorem split_move (hway : OnTheWay P B s)
    (hB : ∃ n : ℤ, displacement (dominant sc B s) sc B s = n)
    (hP : ∃ n : ℤ, displacement (dominant sc B s) sc P s = n) :
    let split := triggerMotors sc B (triggerMotors sc P s)
    let direct := triggerMotors sc B s
    (∀ d, directed d split.issued = directed d direct.issued) ∧
      split.error = direct.error ∧ split.x0 = direct.x0 ∧ split.y0 = direct.y0 := by
  intro split direct
  have halike : Alike split direct := alike_cut hway hB hP
  exact ⟨halike.directed_eq, halike.error_eq, halike.x0_eq, halike.y0_eq⟩

end Cut

/-- Four steps by two and a half, cut in the middle: five quarters of a step are left of Y. -/
theorem split_move_half :
    let s := triggerMotors ⟨1, 1⟩ { xCoord := 2, yCoord := 5 / 4 } {}
    let split := triggerMotors ⟨1, 1⟩ { xCoord := 4, yCoord := 5 / 2 } s
    let direct := triggerMotors ⟨1, 1⟩ { xCoord := 4, yCoord := 5 / 2 } {}
    directed ⟨false, false⟩ split.issued = directed ⟨false, false⟩ direct.issued ∧
      split.error = direct.error := by
  have hway : OnTheWay { xCoord := 2, yCoord := 5 / 4 } { xCoord := 4, yCoord := 5 / 2 } {} := by
    refine ⟨1 / 2, 1 / 2, by norm_num, by norm_num, by norm_num, ?_⟩
    norm_num
  have hdom : dominant ⟨1, 1⟩ { xCoord := 4, yCoord := 5 / 2 } {} = .x := by decide +kernel
  have hB : ∃ n : ℤ, displacement .x ⟨1, 1⟩ { xCoord := 4, yCoord := 5 / 2 } {} = n :=
    ⟨4, by norm_num [displacement, GObject.coord, Drawer.recorded, Scale.on]⟩
  have hP : ∃ n : ℤ, displacement .x ⟨1, 1⟩ { xCoord := 2, yCoord := 5 / 4 } {} = n :=
    ⟨2, by norm_num [displacement, GObject.coord, Drawer.recorded, Scale.on]⟩
  obtain ⟨hcalls, herror, -⟩ := split_move hway (hdom ▸ hB) (hdom ▸ hP)
  exact ⟨hcalls _, herror⟩

/-- **A cut anywhere in a drawing** changes neither the directed calls of the drawing nor where
it ends. -/
theorem alike_drawing {sc : Scale} {s : Drawer} {P B : GObject} (before after : List GObject)
    (hway : OnTheWay P B (triggerAll sc before s))
    (hB : ∃ n : ℤ, displacement (dominant sc B (triggerAll sc before s)) sc B
      (triggerAll sc before s) = n)
    (hP : ∃ n : ℤ, displacement (dominant sc B (triggerAll sc before s)) sc P
      (triggerAll sc before s) = n) :
    Alike (triggerAll sc (before ++ P :: B :: after) s)
      (triggerAll sc (before ++ B :: after) s) := by
  have hcut := (alike_cut hway hB hP).triggerAll sc after
  rw [triggerAll, List.foldl_append, triggerAll, List.foldl_append]
  exact hcut

theorem alike_drawing_half : Alike
    (triggerAll ⟨1, 1⟩ [{ xCoord := 2, yCoord := 5 / 4 }, { xCoord := 4, yCoord := 5 / 2 }, {}] {})
    (triggerAll ⟨1, 1⟩ [{ xCoord := 4, yCoord := 5 / 2 }, {}] {}) := by
  have hway : OnTheWay { xCoord := 2, yCoord := 5 / 4 } { xCoord := 4, yCoord := 5 / 2 } {} := by
    refine ⟨1 / 2, 1 / 2, by norm_num, by norm_num, by norm_num, ?_⟩
    norm_num
  have hdom : dominant ⟨1, 1⟩ { xCoord := 4, yCoord := 5 / 2 } {} = .x := by decide +kernel
  have hB : ∃ n : ℤ, displacement .x ⟨1, 1⟩ { xCoord := 4, yCoord := 5 / 2 } {} = n :=
    ⟨4, by norm_num [displacement, GObject.coord, Drawer.recorded, Scale.on]⟩
  have hP : ∃ n : ℤ, displacement .x ⟨1, 1⟩ { xCoord := 2, yCoord := 5 / 4 } {} = n :=
    ⟨2, by norm_num [displacement, GObject.coord, Drawer.recorded, Scale.on]⟩
  exact alike_drawing [] [{}] hway (hdom ▸ hB) (hdom ▸ hP)

end Plotter
