import Plotter.Moves.Grid
import Plotter.StepEngine

/-!
# Running into a limit switch

With both axes calibrated the interrupt handler drops every step of an axis while one of
its switches is active, whichever way the step would go. So an axis that has reached a
switch never leaves it again, while `triggerMotors` goes on recording its targets as
reached.

`Machine` executes the motor calls of the line drawer on the step engine; per axis it
refines `Stop.travelTo`, which clamps a target to the switches and then sticks.

## Main definitions

* `Stop`, `Stops`: the switches of an axis and of the machine.
* `Machine.exec`: a motor call, run on the engine with switches at the carriage.
* `Stop.travelTo`: the abstract axis.
* `agreesAfter_iff`: after which sequences the carriage stands at the record.
-/

namespace Plotter

open Lib

/-- The switches of an axis, in steps from home: the end switch is active at `lower`
and below, the start switch at `upper` and above. -/
structure Stop where
  lower : ℤ
  upper : ℤ
  lower_neg : lower < 0
  upper_pos : 0 < upper

namespace Stop

/-- Strictly between the switches. -/
def Inside (st : Stop) (p : ℤ) : Prop := st.lower < p ∧ p < st.upper

instance (st : Stop) (p : ℤ) : Decidable (st.Inside p) := inferInstanceAs (Decidable (_ ∧ _))

/-- Where an axis at `p` comes to stand when it is sent to `t`: between the switches it
goes as far as they let it, on a switch it stays. -/
def travelTo (st : Stop) (p t : ℤ) : ℤ :=
  if st.Inside p then max st.lower (min st.upper t) else p

theorem travelTo_of_inside {st : Stop} {p : ℤ} (hp : st.Inside p) (t : ℤ) :
    st.travelTo p t = max st.lower (min st.upper t) := if_pos hp

theorem travelTo_of_not_inside {st : Stop} {p : ℤ} (hp : ¬ st.Inside p) (t : ℤ) :
    st.travelTo p t = p := if_neg hp

theorem inside_clamp {st : Stop} {t : ℤ} :
    st.Inside (max st.lower (min st.upper t)) ↔ st.Inside t := by
  have := st.lower_neg
  have := st.upper_pos
  unfold Inside
  omega

theorem clamp_of_inside {st : Stop} {t : ℤ} (ht : st.Inside t) :
    max st.lower (min st.upper t) = t := by
  unfold Inside at ht
  omega

theorem inside_travelTo {st : Stop} {p t : ℤ} :
    st.Inside (st.travelTo p t) ↔ st.Inside p ∧ st.Inside t := by
  by_cases hp : st.Inside p
  · rw [travelTo_of_inside hp, inside_clamp, and_iff_right hp]
  · rw [travelTo_of_not_inside hp, iff_false_left hp, not_and]
    exact fun h => absurd h hp

/-- An axis is between its switches after a sequence of targets if and only if all of
them were. -/
theorem inside_foldl_travelTo {st : Stop} {p : ℤ} {ts : List ℤ} :
    st.Inside (ts.foldl st.travelTo p) ↔ st.Inside p ∧ ∀ t ∈ ts, st.Inside t := by
  induction ts generalizing p with
  | nil => simp
  | cons t ts ih => rw [List.foldl_cons, ih, inside_travelTo, List.forall_mem_cons, and_assoc]

theorem inside_zero (st : Stop) : st.Inside 0 := ⟨st.lower_neg, st.upper_pos⟩

end Stop

/-- The switches of the machine. -/
structure Stops where
  x : Stop
  y : Stop

def Stops.on (st : Stops) : Axis → Stop
  | .x => st.x
  | .y => st.y

/-- The step engine with the two carriages. -/
structure Machine where
  engine : Engine := {}
  x : Rail := {}
  y : Rail := {}
  deriving DecidableEq, Repr

namespace Machine

def rail (m : Machine) : Axis → Rail
  | .x => m.x
  | .y => m.y

/-- What the switches read where the carriages stand. -/
def readings (st : Stops) (m : Machine) : Readings :=
  { xStart := decide (st.x.upper ≤ m.x.pos), xEnd := decide (m.x.pos ≤ st.x.lower)
    yStart := decide (st.y.upper ≤ m.y.pos), yEnd := decide (m.y.pos ≤ st.y.lower) }

/-- The toggles that `e'` has made on the step pin of an axis since `e`. -/
def toggles (a : Axis) (e e' : Engine) : ℤ :=
  (e'.stepPin a).past.length - (e.stepPin a).past.length

/-- A motor call. Two toggles of a step pin move the carriage by one step; the switches
are read where the carriages stand when the call is made. -/
def exec (st : Stops) (m : Machine) : Event → Machine
  | .setDirection .x d => { m with x := { m.x with dir := d } }
  | .setDirection .y d => { m with y := { m.y with dir := d } }
  | .ritStart xCount yCount =>
    let e := RIT_start .both (fun _ => m.readings st) xCount yCount m.engine
    { engine := e
      x := { m.x with pos := m.x.pos + heading m.x.dir * (toggles .x m.engine e / 2) }
      y := { m.y with pos := m.y.pos + heading m.y.dir * (toggles .y m.engine e / 2) } }

def follow (st : Stops) (m : Machine) (evs : List Event) : Machine := evs.foldl (exec st) m

end Machine

/-! ## One axis of the machine -/

/-- An axis with switches: a step asked for on a switch is dropped. -/
def Rail.execStop (a : Axis) (st : Stop) (r : Rail) (ev : Event) : Rail :=
  match ev with
  | .setDirection _ _ => r.exec a ev
  | .ritStart _ _ => if st.Inside r.pos then r.exec a ev else r

/-- The motor calls the line drawer makes. -/
def Event.FromDrawer (ev : Event) : Prop := (∃ a d, ev = .setDirection a d) ∨ ev.Stroke

theorem Machine.active_readings (st : Stops) (m : Machine) (a : Axis) :
    (m.readings st).active a = false ↔ (st.on a).Inside (m.rail a).pos := by
  cases a <;> simp [Readings.active, Machine.readings, Stops.on, Machine.rail, Stop.Inside,
    and_comm]

theorem toggles_self (a : Axis) (e : Engine) : Machine.toggles a e e = 0 := by
  simp [Machine.toggles]

theorem toggles_drive_drive (a b : Axis) (e : Engine) :
    Machine.toggles b e ((e.drive a).drive a) = if b = a then 2 else 0 := by
  cases a <;> cases b <;>
    simp [Machine.toggles, Engine.drive, Engine.driveX, Engine.driveY, Engine.stepPin,
      OutputPin.write] <;> ring

/-- A full step on an idle engine moves its own carriage, unless it stands on a switch. -/
theorem exec_fullStep (st : Stops) {m : Machine} (he : m.engine.Idle) (a b : Axis) :
    (m.exec st (.ritStart a.counts.1 a.counts.2)).rail b =
        (m.rail b).execStop b (st.on b) (.ritStart a.counts.1 a.counts.2) ∧
      (m.exec st (.ritStart a.counts.1 a.counts.2)).engine.Idle := by
  have hidle := he.fullStep a fun _ => m.readings st
  refine ⟨?_, hidle⟩
  have hsteps : (Event.ritStart a.counts.1 a.counts.2).steps b = if b = a then 1 else 0 := by
    cases a <;> cases b <;> rfl
  have hrail : (m.exec st (.ritStart a.counts.1 a.counts.2)).rail b =
      { m.rail b with pos := (m.rail b).pos + heading (m.rail b).dir *
        (Machine.toggles b m.engine (fullStep a (fun _ => m.readings st) m.engine) / 2) } := by
    cases b <;> rfl
  rw [hrail, fullStep_cases a _ he, Rail.execStop, Rail.exec, hsteps]
  by_cases hba : b = a
  · subst hba
    by_cases hin : (st.on b).Inside (m.rail b).pos
    · have hact := (Machine.active_readings st m b).mpr hin
      simp [hact, hin, toggles_drive_drive]
    · have hact : (m.readings st).active b = true := by
        rw [← Bool.not_eq_false, Machine.active_readings]
        exact hin
      simp [hact, hin, toggles_self]
  · have hnone : Machine.toggles b m.engine
        (if (m.readings st).active a then m.engine
          else if (m.readings st).active a then m.engine.drive a
          else (m.engine.drive a).drive a) = 0 := by
      split_ifs
      · exact toggles_self b m.engine
      · rw [toggles_drive_drive, if_neg hba]
    rw [hnone]
    simp [hba]

/-- **Refinement, one call**: on each axis the machine does what the axis with switches
does, and the engine is idle again. -/
theorem rail_exec (st : Stops) {m : Machine} (he : m.engine.Idle) {ev : Event}
    (hev : ev.FromDrawer) (a : Axis) :
    (m.exec st ev).rail a = (m.rail a).execStop a (st.on a) ev ∧ (m.exec st ev).engine.Idle := by
  rcases hev with ⟨b, d, rfl⟩ | rfl | rfl
  · cases b <;> cases a <;> exact ⟨rfl, he⟩
  · exact exec_fullStep st he .x a
  · exact exec_fullStep st he .y a

/-- **Refinement, a log of calls.** -/
theorem rail_follow (st : Stops) (evs : List Event) (hevs : ∀ ev ∈ evs, ev.FromDrawer) (a : Axis)
    {m : Machine} (he : m.engine.Idle) :
    (m.follow st evs).rail a = evs.foldl (Rail.execStop a (st.on a)) (m.rail a) := by
  induction evs generalizing m with
  | nil => rfl
  | cons ev evs ih =>
      obtain ⟨hrail, hidle⟩ := rail_exec st he (hevs ev (by simp)) a
      rw [Machine.follow, List.foldl_cons, List.foldl_cons, ← hrail]
      exact ih (fun ev' hev' => hevs ev' (by simp [hev'])) hidle

/-! ## One move of an axis with switches -/

section Move
variable {a : Axis} {st : Stop}

theorem Event.Stroke.execStop_eq {ev : Event} (hev : ev.Stroke) (r : Rail) :
    r.execStop a st ev = if st.Inside r.pos then
      { r with pos := r.pos + heading r.dir * ev.steps a } else r := by
  rcases hev with rfl | rfl <;> rfl

theorem foldl_execStop_of_not_inside {evs : List Event} (hevs : ∀ ev ∈ evs, ev.Stroke) {r : Rail}
    (hr : ¬ st.Inside r.pos) : evs.foldl (Rail.execStop a st) r = r := by
  induction evs with
  | nil => rfl
  | cons ev evs ih =>
      rw [List.foldl_cons, (hevs ev (by simp)).execStop_eq, if_neg hr]
      exact ih fun ev' hev' => hevs ev' (by simp [hev'])

/-- Steps towards the start switch are made until it is reached. -/
theorem pos_foldl_up {evs : List Event} (hevs : ∀ ev ∈ evs, ev.Stroke) {p : ℤ}
    (hlo : st.lower < p) (hhi : p ≤ st.upper) :
    (evs.foldl (Rail.execStop a st) ⟨true, p⟩).pos = min st.upper (p + totalSteps a evs) := by
  induction evs generalizing p with
  | nil => simp [hhi]
  | cons ev evs ih =>
      have hev := hevs ev (by simp)
      have hrest : ∀ ev' ∈ evs, ev'.Stroke := fun ev' hev' => hevs ev' (by simp [hev'])
      obtain ⟨h0, h1⟩ := hev.steps_mem a
      rw [List.foldl_cons, hev.execStop_eq, totalSteps_cons]
      by_cases hin : st.Inside p
      · rw [if_pos hin]
        unfold Stop.Inside at hin
        simp only [heading, if_true, one_mul]
        rw [ih hrest (by omega) (by omega), add_assoc]
      · rw [if_neg hin, foldl_execStop_of_not_inside hrest hin]
        unfold Stop.Inside at hin
        have htot := totalSteps_nonneg hrest a
        simp only
        omega

/-- Steps towards the end switch are made until it is reached. -/
theorem pos_foldl_down {evs : List Event} (hevs : ∀ ev ∈ evs, ev.Stroke) {p : ℤ}
    (hlo : st.lower ≤ p) (hhi : p < st.upper) :
    (evs.foldl (Rail.execStop a st) ⟨false, p⟩).pos = max st.lower (p - totalSteps a evs) := by
  induction evs generalizing p with
  | nil => simp [hlo]
  | cons ev evs ih =>
      have hev := hevs ev (by simp)
      have hrest : ∀ ev' ∈ evs, ev'.Stroke := fun ev' hev' => hevs ev' (by simp [hev'])
      obtain ⟨h0, h1⟩ := hev.steps_mem a
      rw [List.foldl_cons, hev.execStop_eq, totalSteps_cons]
      by_cases hin : st.Inside p
      · rw [if_pos hin]
        unfold Stop.Inside at hin
        simp only [heading, Bool.false_eq_true, if_false, neg_one_mul, ← sub_eq_add_neg]
        rw [ih hrest (by omega) (by omega), sub_sub]
      · rw [if_neg hin, foldl_execStop_of_not_inside hrest hin]
        unfold Stop.Inside at hin
        have htot := totalSteps_nonneg hrest a
        simp only
        omega

/-- **One move with switches**: an axis that stands on the grid where the record says
ends at the target, or at the switch it meets on the way. -/
theorem pos_move (st : Stop) {sc : Scale} {object : GObject} {s : Drawer} (h : 0 ≤ sc.on a)
    (hw : WholeMove sc object s) (hs : InBand s.error) (r : Rail)
    (hrec : st.Inside r.pos → (r.pos : ℚ) = s.recorded a * sc.on a) {t : ℤ}
    (ht : object.coord a * sc.on a = t) :
    ((moveEvents sc object s).foldl (Rail.execStop a st) r).pos = st.travelTo r.pos t := by
  obtain ⟨d, hd⟩ : ∃ d, d = decide (s.recorded a < object.coord a) := ⟨_, rfl⟩
  have hstroke : ∀ ev ∈ (movePlan sc object s).strokes (moveTicks sc object s).1, ev.Stroke :=
    fun ev => Plan.stroke_of_mem
  have hdirs : (moveEvents sc object s).foldl (Rail.execStop a st) r =
      ((movePlan sc object s).strokes (moveTicks sc object s).1).foldl (Rail.execStop a st)
        ⟨d, r.pos⟩ := by
    rw [moveEvents, List.foldl_cons, List.foldl_cons, hd]
    cases a <;> rfl
  rw [hdirs]
  by_cases hin : st.Inside r.pos
  · have htot : (heading d * moveSteps a sc object s : ℤ) = t - r.pos := by
      have hq : ((heading d * moveSteps a sc object s : ℤ) : ℚ) = ((t - r.pos : ℤ) : ℚ) := by
        push_cast
        rw [moveSteps_of_whole hw hs, hd, heading_mul_travel h, displacement, sub_mul, ht,
          ← hrec hin]
      exact_mod_cast hq
    have hnonneg : 0 ≤ moveSteps a sc object s := totalSteps_nonneg hstroke a
    rw [Stop.travelTo_of_inside hin]
    unfold Stop.Inside at hin
    clear hd hdirs
    cases d with
    | true =>
        rw [pos_foldl_up hstroke hin.1 hin.2.le]
        change min _ (r.pos + moveSteps a sc object s) = _
        simp only [heading, if_true, one_mul] at htot
        omega
    | false =>
        rw [pos_foldl_down hstroke hin.1.le hin.2]
        change max _ (r.pos - moveSteps a sc object s) = _
        simp only [heading, Bool.false_eq_true, if_false, neg_one_mul] at htot
        omega
  · rw [foldl_execStop_of_not_inside hstroke (r := ⟨d, r.pos⟩) hin,
      Stop.travelTo_of_not_inside hin]

end Move

/-! ## Whole runs -/

/-- The machine after calibration: both carriages at home, the engine idle. -/
structure Machine.AtHome (m : Machine) : Prop where
  idle : m.engine.Idle
  x_pos : m.x.pos = 0
  y_pos : m.y.pos = 0

theorem Machine.AtHome.pos_eq {m : Machine} (hm : m.AtHome) (a : Axis) : (m.rail a).pos = 0 := by
  cases a
  · exact hm.x_pos
  · exact hm.y_pos

/-- The target of a command on one axis, in whole steps. -/
def GObject.gridCoord (object : GObject) (sc : Scale) (a : Axis) : ℤ :=
  ⌊object.coord a * sc.on a⌋

theorem GObject.OnGrid.gridCoord_eq {object : GObject} {sc : Scale} (ho : object.OnGrid sc)
    (a : Axis) : (object.gridCoord sc a : ℚ) = object.coord a * sc.on a := by
  obtain ⟨n, hn⟩ := ho a
  rw [GObject.gridCoord, hn, Int.floor_intCast]

theorem moveEvents_fromDrawer {sc : Scale} {object : GObject} {s : Drawer} :
    ∀ ev ∈ moveEvents sc object s, ev.FromDrawer := by
  intro ev hev
  rcases List.mem_cons.mp hev with rfl | hev
  · exact .inl ⟨.x, _, rfl⟩
  rcases List.mem_cons.mp hev with rfl | hev
  · exact .inl ⟨.y, _, rfl⟩
  · exact .inr (Plan.stroke_of_mem hev)

/-- The machine after a sequence of commands from home. -/
def drive (st : Stops) (sc : Scale) (objects : List GObject) (m : Machine) (s : Drawer) : Machine :=
  m.follow st (triggerAll sc objects s).issued

theorem idle_follow (st : Stops) (evs : List Event) (hevs : ∀ ev ∈ evs, ev.FromDrawer)
    {m : Machine} (he : m.engine.Idle) : (m.follow st evs).engine.Idle := by
  induction evs generalizing m with
  | nil => exact he
  | cons ev evs ih =>
      exact ih (fun ev' hev' => hevs ev' (by simp [hev']))
        (rail_exec st he (hevs ev (by simp)) .x).2

section Run
variable {st : Stops} {sc : Scale} {m : Machine} {s : Drawer}

theorem drive_concat (os : List GObject) (o : GObject) : drive st sc (os ++ [o]) m s =
    (drive st sc os m s).follow st (moveEvents sc o (triggerAll sc os s)) := by
  rw [drive, triggerAll_concat, triggerMotors_issued, Machine.follow, List.foldl_append]
  rfl

theorem idle_drive (hm : m.AtHome) (hs : s.Home) (objects : List GObject) :
    (drive st sc objects m s).engine.Idle := by
  induction objects using List.reverseRecOn with
  | nil =>
      rw [drive, triggerAll_nil, hs.issued_eq]
      exact hm.idle
  | append_singleton os o ih =>
      rw [drive_concat]
      exact idle_follow st _ moveEvents_fromDrawer ih

/-- **A run of the machine** is the abstract axis sent to one target after another; as
long as it is between its switches it stands where the record says. -/
theorem pos_drive (st : Stops) (hsc : ∀ a, 0 ≤ sc.on a) (hm : m.AtHome) (hs : s.Home)
    {objects : List GObject} (ho : ∀ o ∈ objects, o.OnGrid sc) (a : Axis) :
    ((drive st sc objects m s).rail a).pos =
        (objects.map fun o => o.gridCoord sc a).foldl (st.on a).travelTo 0 ∧
      ((st.on a).Inside ((drive st sc objects m s).rail a).pos →
        (((drive st sc objects m s).rail a).pos : ℚ) =
          (triggerAll sc objects s).recorded a * sc.on a) := by
  induction objects using List.reverseRecOn with
  | nil =>
      rw [drive, triggerAll_nil, hs.issued_eq]
      change (m.rail a).pos = 0 ∧ ((st.on a).Inside (m.rail a).pos → ((m.rail a).pos : ℚ) = _)
      rw [hm.pos_eq, hs.recorded_eq]
      simp
  | append_singleton os o ih =>
      have hos : ∀ o' ∈ os, o'.OnGrid sc := fun o' ho' => ho o' (by simp [ho'])
      have hgrid := ho o (by simp)
      obtain ⟨hpos, hrec⟩ := ih hos
      have hmove := pos_move (st.on a) (hsc a) (wholeMove_triggerAll hs hos hgrid)
        (triggerAll_inBand sc os hs.inBand) ((drive st sc os m s).rail a) hrec
        (hgrid.gridCoord_eq a).symm
      have hnew : ((drive st sc (os ++ [o]) m s).rail a).pos =
          (st.on a).travelTo ((drive st sc os m s).rail a).pos (o.gridCoord sc a) := by
        rw [drive_concat, rail_follow st _ moveEvents_fromDrawer a (idle_drive hm hs os), hmove]
      constructor
      · rw [hnew, hpos, List.map_append, List.foldl_append]
        rfl
      · rw [hnew, Stop.inside_travelTo]
        rintro ⟨hin, ht⟩
        rw [Stop.travelTo_of_inside hin, Stop.clamp_of_inside ht, triggerAll_concat,
          recorded_triggerMotors, hgrid.gridCoord_eq]

end Run

/-- A target strictly between the switches on both axes. -/
def GObject.Inside (object : GObject) (st : Stops) (sc : Scale) : Prop :=
  ∀ a, ((st.on a).lower : ℚ) < object.coord a * sc.on a ∧
    object.coord a * sc.on a < ((st.on a).upper : ℚ)

theorem GObject.OnGrid.inside_iff {object : GObject} {sc : Scale} (ho : object.OnGrid sc)
    (st : Stops) : object.Inside st sc ↔ ∀ a, (st.on a).Inside (object.gridCoord sc a) := by
  refine forall_congr' fun a => ?_
  rw [← ho.gridCoord_eq, Stop.Inside, Int.cast_lt, Int.cast_lt]

/-- After every command whose target lies between the switches, the carriages stand at
that target, and so does the record. -/
def AgreesAfter (st : Stops) (sc : Scale) (objects : List GObject) (m : Machine) (s : Drawer) :
    Prop :=
  ∀ before o after, objects = before ++ o :: after → o.Inside st sc → ∀ a,
    (((drive st sc (before ++ [o]) m s).rail a).pos : ℚ) = o.coord a * sc.on a ∧
      (triggerAll sc (before ++ [o]) s).recorded a = o.coord a

/-- No target between the switches comes after one that is not. -/
def InsideFirst (st : Stops) (sc : Scale) (objects : List GObject) : Prop :=
  ∀ before o after, objects = before ++ o :: after → o.Inside st sc →
    ∀ o' ∈ before, o'.Inside st sc

/-- **No recovery.** The carriages are at every target between the switches that the
sequence asks for if and only if all of these come before the first target that is on a
switch or beyond it. -/
theorem agreesAfter_iff (st : Stops) {sc : Scale} (hx : 0 < sc.scaledX) (hy : 0 < sc.scaledY)
    {m : Machine} (hm : m.AtHome) {s : Drawer} (hs : s.Home) {objects : List GObject}
    (ho : ∀ o ∈ objects, o.OnGrid sc) :
    AgreesAfter st sc objects m s ↔ InsideFirst st sc objects := by
  have hsc : ∀ a, 0 ≤ sc.on a := by rintro (_ | _); exacts [hx.le, hy.le]
  have hsplit : ∀ before o after, objects = before ++ o :: after →
      ∀ o' ∈ before ++ [o], o'.OnGrid sc := by
    rintro before o after rfl o' ho'
    exact ho o' (List.mem_append.mpr ((List.mem_append.mp ho').imp_right (by simp_all)))
  constructor
  · -- a carriage that stands at a target between its switches never met one before
    intro h before o after heq hin o' ho'
    have hgrid := hsplit before o after heq
    rw [(hgrid o' (by simp [ho'])).inside_iff]
    intro a
    have hpos := (pos_drive st hsc hm hs hgrid a).1
    have hstands := (h before o after heq hin a).1
    rw [← (hgrid o (by simp)).gridCoord_eq, Int.cast_inj] at hstands
    have hat : (st.on a).Inside ((drive st sc (before ++ [o]) m s).rail a).pos := by
      rw [hstands]
      exact ((hgrid o (by simp)).inside_iff st).mp hin a
    rw [hpos, Stop.inside_foldl_travelTo] at hat
    exact hat.2 _ (List.mem_map_of_mem (by simp [ho']))
  · -- with all targets so far between the switches, so are the carriages
    intro h before o after heq hin a
    have hgrid := hsplit before o after heq
    have hrec : (triggerAll sc (before ++ [o]) s).recorded a = o.coord a := by
      rw [triggerAll_concat, recorded_triggerMotors]
    obtain ⟨hpos, hstands⟩ := pos_drive st hsc hm hs hgrid a
    have hat : (st.on a).Inside ((drive st sc (before ++ [o]) m s).rail a).pos := by
      rw [hpos, Stop.inside_foldl_travelTo]
      refine ⟨(st.on a).inside_zero, fun t ht => ?_⟩
      obtain ⟨o', ho', rfl⟩ := List.mem_map.mp ht
      rw [List.mem_append, List.mem_singleton] at ho'
      have hin' : o'.Inside st sc := by
        rcases ho' with ho' | rfl
        · exact h before o after heq hin o' ho'
        · exact hin
      exact ((hgrid o' (by simpa using ho')).inside_iff st).mp hin' a
    rw [hstands hat, hrec]
    exact ⟨rfl, rfl⟩

/-- Switches five steps from home on both sides of both axes. -/
def fiveSteps : Stops := ⟨⟨-5, 5, by decide, by decide⟩, ⟨-5, 5, by decide, by decide⟩⟩

/-- A target beyond the start switch of the X axis, then home. -/
def beyondAndBack : List GObject := [{ xCoord := 10 }, { xCoord := 0 }]

theorem beyondAndBack_onGrid : ∀ o ∈ beyondAndBack, o.OnGrid ⟨1, 1⟩ := by
  intro o ho a
  rcases List.mem_pair.mp ho with rfl | rfl <;> cases a
  exacts [⟨10, by norm_num [GObject.coord, Scale.on]⟩, ⟨0, by norm_num [GObject.coord, Scale.on]⟩,
    ⟨0, by norm_num [GObject.coord, Scale.on]⟩, ⟨0, by norm_num [GObject.coord, Scale.on]⟩]

theorem agreesAfter_iff_beyondAndBack :
    AgreesAfter fiveSteps ⟨1, 1⟩ beyondAndBack {} {} ↔
      InsideFirst fiveSteps ⟨1, 1⟩ beyondAndBack :=
  agreesAfter_iff fiveSteps one_pos one_pos ⟨⟨rfl, rfl, rfl, rfl, rfl⟩, rfl, rfl⟩
    ⟨rfl, rfl, rfl, rfl⟩ beyondAndBack_onGrid

/-- The X carriage stays on the switch when it is sent home; the record says zero. -/
theorem beyondAndBack_sticks : ¬ ∀ (st : Stops) (sc : Scale), 0 < sc.scaledX → 0 < sc.scaledY →
    ∀ m : Machine, m.AtHome → ∀ s : Drawer, s.Home → ∀ objects : List GObject,
      (∀ o ∈ objects, o.OnGrid sc) → AgreesAfter st sc objects m s := by
  intro h
  have hagree := h fiveSteps ⟨1, 1⟩ one_pos one_pos {} ⟨⟨rfl, rfl, rfl, rfl, rfl⟩, rfl, rfl⟩
    {} ⟨rfl, rfl, rfl, rfl⟩ beyondAndBack beyondAndBack_onGrid
  have hin : GObject.Inside { xCoord := 0 } fiveSteps ⟨1, 1⟩ := by
    intro a
    cases a <;> norm_num [GObject.coord, Scale.on, Stops.on, fiveSteps]
  have hhome := (hagree [{ xCoord := 10 }] { xCoord := 0 } [] rfl hin .x).1
  have hpos : ((drive fiveSteps ⟨1, 1⟩ beyondAndBack {} {}).rail .x).pos = 5 := by decide +kernel
  change ((((drive fiveSteps ⟨1, 1⟩ beyondAndBack {} {}).rail .x).pos : ℤ) : ℚ) = _ at hhome
  rw [hpos] at hhome
  norm_num [GObject.coord, Scale.on] at hhome

end Plotter
