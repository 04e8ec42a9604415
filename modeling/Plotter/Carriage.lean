import Mathlib.Algebra.Order.BigOperators.Group.List
import Plotter.LineDrawer

/-!
# Where the carriage goes

A motor call changes the direction of an axis or asks for full steps of it; two
toggles of the step pin are one full step. `Rail` follows one axis through a log of
motor calls, counting every step the calls ask for. No switch stops it.

## Main definitions

* `Rail.follow a r evs`: direction and net signed steps of axis `a` after `evs`.
* `moveSteps`, `displacement`: steps of a move, and what they should add up to.
* `abs_moveSteps_sub_lt`: a move is off by less than two steps on each axis.
* `moveSteps_of_whole`: a move over whole steps is exact.
-/

namespace Plotter

open Lib

/-- One axis: the direction of its motor and the net signed steps made. -/
structure Rail where
  dir : Bool := false
  pos : ℤ := 0
  deriving DecidableEq, Repr

namespace Rail

/-- The effect of one motor call on axis `a`. -/
def exec (a : Axis) (r : Rail) : Event → Rail
  | .setDirection b d => if b = a then { r with dir := d } else r
  | .ritStart xCount yCount =>
    { r with pos := r.pos + heading r.dir * (Event.ritStart xCount yCount).steps a }

/-- The effect of a log of motor calls on axis `a`. -/
def follow (a : Axis) (r : Rail) (evs : List Event) : Rail := evs.foldl (exec a) r

@[simp] theorem follow_nil (a : Axis) (r : Rail) : follow a r [] = r := rfl

theorem follow_cons (a : Axis) (r : Rail) (ev : Event) (evs : List Event) :
    follow a r (ev :: evs) = follow a (exec a r ev) evs := rfl

theorem follow_append (a : Axis) (r : Rail) (evs fvs : List Event) :
    follow a r (evs ++ fvs) = follow a (follow a r evs) fvs := List.foldl_append

end Rail

/-! ## The steps of a move -/

/-- The full steps of axis `a` that a list of calls asks for. -/
def totalSteps (a : Axis) (evs : List Event) : ℤ := (evs.map (Event.steps a)).sum

@[simp] theorem totalSteps_nil (a : Axis) : totalSteps a [] = 0 := rfl

theorem totalSteps_cons (a : Axis) (ev : Event) (evs : List Event) :
    totalSteps a (ev :: evs) = ev.steps a + totalSteps a evs := by simp [totalSteps]

theorem totalSteps_append (a : Axis) (evs fvs : List Event) :
    totalSteps a (evs ++ fvs) = totalSteps a evs + totalSteps a fvs := by simp [totalSteps]

/-- The calls of a move after its direction settings: one full step of one axis each. -/
def Event.Stroke (ev : Event) : Prop := ev = .ritStart 2 0 ∨ ev = .ritStart 0 2

theorem Event.Stroke.steps_mem {ev : Event} (hev : ev.Stroke) (a : Axis) :
    0 ≤ ev.steps a ∧ ev.steps a ≤ 1 := by
  rcases hev with rfl | rfl <;> cases a <;> simp [Event.steps]

theorem totalSteps_nonneg {evs : List Event} (hevs : ∀ ev ∈ evs, ev.Stroke) (a : Axis) :
    0 ≤ totalSteps a evs := by
  refine List.sum_nonneg fun n hn => ?_
  obtain ⟨ev, hev, rfl⟩ := List.mem_map.mp hn
  exact ((hevs ev hev).steps_mem a).1

/-- Between two direction settings an axis moves one way. -/
theorem Rail.follow_of_stroke (a : Axis) (r : Rail) (evs : List Event)
    (hevs : ∀ ev ∈ evs, ev.Stroke) :
    Rail.follow a r evs = { r with pos := r.pos + heading r.dir * totalSteps a evs } := by
  induction evs generalizing r with
  | nil => simp
  | cons ev evs ih =>
      rw [Rail.follow_cons, ih _ fun ev' hev' => hevs ev' (List.mem_cons_of_mem _ hev')]
      rcases hevs ev (List.mem_cons_self ..) with rfl | rfl <;>
        simp only [Rail.exec, totalSteps_cons, mul_add, add_assoc]

/-- The strokes of a plan are full steps of one axis or the other. -/
theorem Plan.stroke_of_mem {p : Plan} {bs : List Bool} {ev : Event} (h : ev ∈ p.strokes bs) :
    ev.Stroke := by
  have hmem : ∀ lead other, ev ∈ Plotter.strokes lead other bs → ev = lead ∨ ev = other := by
    intro lead other hev
    obtain ⟨b, -, hb⟩ := List.mem_flatMap.mp hev
    cases b with
    | false => exact .inl (List.mem_singleton.mp hb)
    | true => simpa using hb
  unfold Plan.strokes at h
  split at h
  · exact hmem _ _ h
  · exact (hmem _ _ h).symm

theorem totalSteps_strokes (a : Axis) (lead other : Event) (bs : List Bool) :
    totalSteps a (strokes lead other bs) =
      bs.length * lead.steps a + emissions bs * other.steps a := by
  induction bs with
  | nil => simp [strokes]
  | cons b bs ih =>
      rw [strokes_cons, totalSteps_append, ih]
      cases b <;> simp [totalSteps, emissions] <;> ring

/-- Whether axis `a` is the leading axis of a plan. -/
def Plan.leads (p : Plan) : Axis → Bool
  | .x => p.xLeads
  | .y => !p.xLeads

/-- A plan steps its leading axis in every round and the other one when a tick emits. -/
theorem Plan.totalSteps_strokes (p : Plan) (a : Axis) (bs : List Bool) :
    totalSteps a (p.strokes bs) = if p.leads a then (bs.length : ℤ) else (emissions bs : ℤ) := by
  cases hp : p.xLeads <;> cases a <;>
    simp [Plan.strokes, Plan.leads, hp, Plotter.totalSteps_strokes, Event.steps]

/-- The recorded position on one axis. -/
def Drawer.recorded (s : Drawer) : Axis → ℚ
  | .x => s.x0
  | .y => s.y0

/-- What a move should travel on one axis, in steps. -/
def displacement (a : Axis) (sc : Scale) (object : GObject) (s : Drawer) : ℚ :=
  (object.coord a - s.recorded a) * sc.on a

/-- The steps a move makes on one axis. -/
def moveSteps (a : Axis) (sc : Scale) (object : GObject) (s : Drawer) : ℤ :=
  totalSteps a ((movePlan sc object s).strokes (moveTicks sc object s).1)

@[simp] theorem recorded_triggerMotors (a : Axis) (sc : Scale) (object : GObject) (s : Drawer) :
    (triggerMotors sc object s).recorded a = object.coord a := by
  cases a <;> simp [Drawer.recorded, GObject.coord]

/-- **A move on one axis**: its direction is set towards the target, then it makes
its steps that way. -/
theorem follow_moveEvents (a : Axis) (r : Rail) (sc : Scale) (object : GObject) (s : Drawer) :
    Rail.follow a r (moveEvents sc object s) =
      { dir := decide (s.recorded a < object.coord a)
        pos := r.pos + heading (decide (s.recorded a < object.coord a)) *
          moveSteps a sc object s } := by
  rw [moveEvents, Rail.follow_cons, Rail.follow_cons,
    Rail.follow_of_stroke a _ _ fun ev => Plan.stroke_of_mem]
  cases a <;> rfl

/-! ## How exact a move is -/

/-- The length of a move on one axis, in steps. -/
def travel (a : Axis) (sc : Scale) (object : GObject) (s : Drawer) : ℚ :=
  |displacement a sc object s|

theorem travel_nonneg (a : Axis) (sc : Scale) (object : GObject) (s : Drawer) :
    0 ≤ travel a sc object s := abs_nonneg _

/-- The leading axis makes `⌈D⌉` rounds for its travel `D`; the other axis has the
shorter travel `d` and follows at the slope `d / D`. -/
theorem movePlan_cases (a : Axis) (sc : Scale) (object : GObject) (s : Drawer) :
    ((movePlan sc object s).leads a = true ∧
      (movePlan sc object s).rounds = ⌈travel a sc object s⌉₊) ∨
    ((movePlan sc object s).leads a = false ∧
      (movePlan sc object s).rounds = ⌈travel a.other sc object s⌉₊ ∧
      travel a sc object s ≤ travel a.other sc object s ∧
      (travel a.other sc object s = 0 ∨ (movePlan sc object s).slope =
        travel a sc object s / travel a.other sc object s)) := by
  have hplan : movePlan sc object s = plan (travel .x sc object s) (travel .y sc object s) := rfl
  have hy0 := travel_nonneg .y sc object s
  by_cases h : travel .x sc object s > travel .y sc object s
  · have hne := (lt_of_le_of_lt hy0 h).ne'
    rw [hplan, plan, if_pos h]
    cases a with
    | x => exact .inl ⟨rfl, rfl⟩
    | y => exact .inr ⟨rfl, rfl, h.le, .inr (if_neg hne)⟩
  · rw [hplan, plan, if_neg h]
    cases a with
    | x =>
        refine .inr ⟨rfl, rfl, not_lt.mp h, ?_⟩
        by_cases h0 : travel .y sc object s = 0
        · exact .inl h0
        · exact .inr (if_neg h0)
    | y => exact .inl ⟨rfl, rfl⟩

/-- The rounds times the slope, against the travel of the axis that follows:
rounding the leading axis up overshoots by less than one step of the other. -/
theorem rounds_mul_slope {d D slope : ℚ} (hd : 0 ≤ d) (hdD : d ≤ D)
    (hslope : D = 0 ∨ slope = d / D) :
    d ≤ (⌈D⌉₊ : ℚ) * slope ∧ (⌈D⌉₊ : ℚ) * slope < d + 1 := by
  rcases eq_or_lt_of_le (hd.trans hdD) with h0 | hpos
  · have hd0 : d = 0 := le_antisymm (hdD.trans h0.symm.le) hd
    simp [← h0, hd0]
  · have hs : slope = d / D := hslope.resolve_left hpos.ne'
    have hDs : D * slope = d := by rw [hs, mul_div_cancel₀ _ hpos.ne']
    have hs0 : 0 ≤ slope := hs ▸ div_nonneg hd hpos.le
    have hs1 : slope ≤ 1 := hs ▸ (div_le_one hpos).mpr hdD
    have hlo : D ≤ (⌈D⌉₊ : ℚ) := Nat.le_ceil D
    have hhi : (⌈D⌉₊ : ℚ) < D + 1 := Nat.ceil_lt_add_one hpos.le
    constructor
    · calc d = D * slope := hDs.symm
        _ ≤ (⌈D⌉₊ : ℚ) * slope := mul_le_mul_of_nonneg_right hlo hs0
    · calc (⌈D⌉₊ : ℚ) * slope = d + ((⌈D⌉₊ : ℚ) - D) * slope := by rw [← hDs]; ring
        _ ≤ d + ((⌈D⌉₊ : ℚ) - D) * 1 := by gcongr
        _ < d + 1 := by linarith

theorem moveSteps_of_leads {a : Axis} {sc : Scale} {object : GObject} {s : Drawer}
    (h : (movePlan sc object s).leads a = true) :
    moveSteps a sc object s = (movePlan sc object s).rounds := by
  rw [moveSteps, Plan.totalSteps_strokes, if_pos h, moveTicks, length_dda]

theorem moveSteps_of_follows {a : Axis} {sc : Scale} {object : GObject} {s : Drawer}
    (h : (movePlan sc object s).leads a = false) :
    moveSteps a sc object s = emissions (moveTicks sc object s).1 := by
  rw [moveSteps, Plan.totalSteps_strokes, h, if_neg Bool.false_ne_true]

/-- **A move is off by less than two steps** on each axis: the leading axis by less
than one, the other by less than one for the rounding of the leading axis and less
than one for the error carried over. -/
theorem abs_moveSteps_sub_lt (a : Axis) (sc : Scale) (object : GObject) {s : Drawer}
    (hs : InBand s.error) :
    |(moveSteps a sc object s : ℚ) - travel a sc object s| < 2 := by
  have hd := travel_nonneg a sc object s
  rcases movePlan_cases a sc object s with ⟨hlead, hr⟩ | ⟨hlead, hr, hdD, hslope⟩
  · have hlo := Nat.le_ceil (travel a sc object s)
    have hhi := Nat.ceil_lt_add_one hd
    rw [moveSteps_of_leads hlead, hr, abs_lt]
    constructor <;> push_cast <;> linarith
  · obtain ⟨h0, h1⟩ := movePlan_slope_mem sc object s
    have hem := abs_emissions_sub_lt h0 h1 (movePlan sc object s).rounds hs
    obtain ⟨hlo, hhi⟩ := rounds_mul_slope hd hdD hslope
    rw [← hr] at hlo hhi
    rw [moveSteps_of_follows hlead, moveTicks, abs_lt]
    rw [abs_lt] at hem
    constructor <;> push_cast <;> linarith [hem.1, hem.2]

/-- A command moves the pen by a whole number of steps on both axes. -/
def WholeMove (sc : Scale) (object : GObject) (s : Drawer) : Prop :=
  ∀ a, ∃ n : ℤ, displacement a sc object s = n

theorem WholeMove.travel_eq {sc : Scale} {object : GObject} {s : Drawer}
    (hw : WholeMove sc object s) (a : Axis) : ∃ n : ℕ, travel a sc object s = n := by
  obtain ⟨n, hn⟩ := hw a
  exact ⟨n.natAbs, by rw [travel, hn, Nat.cast_natAbs, Int.cast_abs]⟩

/-- The axis that follows makes a whole number of steps by the whole-run law of the
analyser, since both travels are whole. -/
theorem ticks_of_whole {a : Axis} {sc : Scale} {object : GObject} {s : Drawer}
    (hw : WholeMove sc object s) (hs : InBand s.error)
    (hlead : (movePlan sc object s).leads a = false) :
    (emissions (moveTicks sc object s).1 : ℚ) = travel a sc object s ∧
      (moveTicks sc object s).2 = s.error := by
  obtain ⟨h0, h1⟩ := movePlan_slope_mem sc object s
  obtain ⟨n, hn⟩ := hw.travel_eq a
  obtain ⟨N, hN⟩ := hw.travel_eq a.other
  rcases movePlan_cases a sc object s with ⟨hl, -⟩ | ⟨-, hr, hdD, hslope⟩
  · rw [hlead] at hl
    exact absurd hl Bool.false_ne_true
  · have hrN : (movePlan sc object s).rounds = N := by rw [hr, hN, Nat.ceil_natCast]
    have hprod : ((movePlan sc object s).rounds : ℚ) * (movePlan sc object s).slope = n := by
      rw [hrN, ← hN, ← hn]
      rcases hslope with hD | hD
      · have : travel a sc object s = 0 := le_antisymm (hD ▸ hdD) (travel_nonneg a sc object s)
        rw [hD, this, zero_mul]
      · rw [hD]
        by_cases hne : travel a.other sc object s = 0
        · rw [hne, zero_mul]
          exact le_antisymm (travel_nonneg a sc object s) (hne ▸ hdD)
        · exact mul_div_cancel₀ _ hne
    obtain ⟨hem, herr⟩ := dda_whole h0 h1 hprod hs
    exact ⟨by rw [moveTicks, hem, hn], herr⟩

/-- **A move over whole steps is exact** on both axes and leaves the error as it was. -/
theorem moveSteps_of_whole {sc : Scale} {object : GObject} {s : Drawer}
    (hw : WholeMove sc object s) (hs : InBand s.error) (a : Axis) :
    (moveSteps a sc object s : ℚ) = travel a sc object s := by
  rcases movePlan_cases a sc object s with ⟨hlead, hr⟩ | ⟨hlead, -⟩
  · obtain ⟨n, hn⟩ := hw.travel_eq a
    rw [moveSteps_of_leads hlead, hr, hn, Nat.ceil_natCast]
    rfl
  · rw [moveSteps_of_follows hlead, ← (ticks_of_whole hw hs hlead).1]
    rfl

theorem error_of_whole {sc : Scale} {object : GObject} {s : Drawer}
    (hw : WholeMove sc object s) (hs : InBand s.error) :
    (triggerMotors sc object s).error = s.error := by
  rw [triggerMotors_error]
  cases hx : (movePlan sc object s).leads .x with
  | false => exact (ticks_of_whole hw hs hx).2
  | true =>
      have hy : (movePlan sc object s).leads .y = false := by simpa [Plan.leads] using hx
      exact (ticks_of_whole hw hs hy).2

/-- With a scale that is not negative, steps towards the target are displacement. -/
theorem heading_mul_travel {a : Axis} {sc : Scale} (h : 0 ≤ sc.on a) (object : GObject)
    (s : Drawer) : (heading (decide (s.recorded a < object.coord a)) : ℚ) *
      travel a sc object s = displacement a sc object s := by
  by_cases hlt : s.recorded a < object.coord a
  · have hd : 0 ≤ displacement a sc object s := mul_nonneg (sub_nonneg.mpr hlt.le) h
    simp [heading, hlt, travel, abs_of_nonneg hd]
  · have hd : displacement a sc object s ≤ 0 :=
      mul_nonpos_of_nonpos_of_nonneg (sub_nonpos.mpr (not_lt.mp hlt)) h
    simp [heading, hlt, travel, abs_of_nonpos hd]

end Plotter
