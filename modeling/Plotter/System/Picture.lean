import Plotter.Moves.Split
import Plotter.System.Carriages

/-!
# What the pen draws

A carriage is moved by the pulses on its step pin, and the servo holds the pen up or down. So what
a run draws is the sequence of the pulses, each with the direction of its motor and the position
of the servo. The meaning of some commands is the sequence that one after the other would draw. A
run draws nothing else, however its moves are cut by the interrupts and the other tasks.

## Main definitions

* `Mark`: one step of a carriage. `Sys.marked`: those of a step of the tasks.
* `picture`: the marks of some commands, one command after the other.
* `Sys.toMark`: the marks that the move under way has still to make.
* `marks_of_step`: what a step draws.
* `draws_picture`: a run after calibration draws the picture of the commands it executes.
-/

namespace Plotter

open Lib

/-- One step of a carriage, with the position of the servo. -/
structure Mark where
  servo : ℕ
  axis : Axis
  dir : Bool
  deriving DecidableEq, Repr

/-- So many steps of each axis. -/
def marks (servo : ℕ) (dir : Axis → Bool) (n : Axis → ℕ) : List Mark :=
  List.replicate (n .x) ⟨servo, .x, dir .x⟩ ++ List.replicate (n .y) ⟨servo, .y, dir .y⟩

/-- The marks of a call. -/
def Event.marks (servo : ℕ) (dir : Axis → Bool) (call : Event) : List Mark :=
  Plotter.marks servo dir fun a => (call.steps a).toNat

theorem marks_zero (servo : ℕ) (dir : Axis → Bool) {n : Axis → ℕ} (h : ∀ a, n a = 0) :
    marks servo dir n = [] := by
  simp [marks, h]

/-- Steps of one axis may be counted in two parts. -/
theorem marks_append (servo : ℕ) (dir : Axis → Bool) {a : Axis} {n m k : Axis → ℕ}
    (hn : n a.other = 0) (hm : m a.other = 0) (hk : ∀ b, k b = n b + m b) :
    marks servo dir n ++ marks servo dir m = marks servo dir k := by
  cases a with
  | x =>
      have hn : n .y = 0 := hn
      have hm : m .y = 0 := hm
      simp [marks, hk, hn, hm]
  | y =>
      have hn : n .x = 0 := hn
      have hm : m .x = 0 := hm
      simp [marks, hk, hn, hm]

/-! ## The meaning of commands -/

/-- What the commands before have left: the position of the servo, and the globals of the moves. -/
structure Pen where
  servo : ℕ
  drawer : Drawer

namespace Pen
variable (sc : Scale)

def obey (p : Pen) : Order → Pen
  | .M1 servo => { p with servo := if servo = 160 then 1100 else 1600 }
  | .G1 x y => { p with drawer := triggerMotors sc { xCoord := x, yCoord := y } p.drawer }
  | .M10 | .G28 => p

/-- The marks of one command. -/
def marks (p : Pen) : Order → List Mark
  | .G1 x y =>
    let object : GObject := { xCoord := x, yCoord := y }
    (moveStrokes sc object p.drawer).flatMap
      (Event.marks p.servo fun a => decide (p.drawer.recorded a < object.coord a))
  | _ => []

end Pen

/-- The marks of some commands. -/
def picture (sc : Scale) : Pen → List Order → List Mark
  | _, [] => []
  | p, o :: os => p.marks sc o ++ picture sc (p.obey sc o) os

theorem picture_append (sc : Scale) (p : Pen) (os os' : List Order) :
    picture sc p (os ++ os') = picture sc p os ++ picture sc (os.foldl (Pen.obey sc) p) os' := by
  induction os generalizing p with
  | nil => rfl
  | cons o os ih =>
      rw [List.cons_append, picture, picture, ih, List.append_assoc]
      rfl

/-! ## What the tasks draw -/

namespace Sys

/-- The direction that the motor of an axis is set to. -/
def dir (s : Sys) (a : Axis) : Bool := (s.motors.axis a).dir

/-- The pulses on the step pins in a step of the tasks. -/
def marked (s : Sys) (e : Ev) : List Mark :=
  match step s e with
  | none => []
  | some s' => marks s.servoMatch s.dir fun a =>
    (s'.motors.engine.stepPin a).rises - (s.motors.engine.stepPin a).rises

/-- The marks still to be made of the move under way. -/
def toMark (s : Sys) : List Mark :=
  match s.stepper with
  | .drawing _ calls _ => marks s.servoMatch s.dir s.motors.engine.toCome ++
    calls.flatMap (Event.marks s.servoMatch s.dir)
  | _ => []

/-- What the commands that were begun leave when they are over. -/
def pen (s : Sys) : Pen := ⟨s.servoMatch, s.goal⟩

theorem toMark_of_rest {s : Sys} (h : s.stepper.waits = false) : s.toMark = [] := by
  unfold toMark
  cases hpc : s.stepper with
  | drawing object calls after =>
      rw [hpc] at h
      cases h
  | delay | receive | sendArea | sendOK pause => rfl

theorem marked_of_step {s s' : Sys} {e : Ev} (hs : step s e = some s') :
    s.marked e = marks s.servoMatch s.dir fun a =>
      (s'.motors.engine.stepPin a).rises - (s.motors.engine.stepPin a).rises := by
  rw [marked, hs]

/-- Without an edge on a step pin there is no mark. -/
theorem marked_of_pins {s s' : Sys} {e : Ev} (hs : step s e = some s')
    (hpin : ∀ a, s'.motors.engine.stepPin a = s.motors.engine.stepPin a) : s.marked e = [] := by
  rw [marked_of_step hs]
  apply marks_zero
  intro a
  rw [hpin, Nat.sub_self]

/-- A stretch of a move has all of its strokes still to mark, and the servo stays. -/
theorem toMark_draw (s : Sys) (object : GObject) {calls : List Event} (after : Drawer)
    (h : ∀ call ∈ calls, call.Stroke) :
    (s.draw object calls after).toMark = calls.flatMap (Event.marks s.servoMatch s.dir) ∧
      (s.draw object calls after).pen = ⟨s.servoMatch, after⟩ ∧
      (s.draw object calls after).executed = s.executed := by
  rcases s.draw_of_stroke object after h with ⟨hnil, heq⟩ | ⟨a, rest, hcons, heq⟩
  · rw [heq, hnil]
    exact ⟨rfl, rfl, rfl⟩
  · refine ⟨?_, ?_, ?_⟩
    · have hdir : (s.draw object calls after).dir = s.dir := by
        funext b
        rw [dir, dir, heq]
        exact congrArg AxisState.dir (s.motors.axis_start ..)
      have hservo : (s.draw object calls after).servoMatch = s.servoMatch := by rw [heq]
      rw [toMark, hdir, hservo, heq, hcons, List.flatMap_cons]
      cases a <;> rfl
    · rw [pen, (s.goal_draw object calls after).1, heq]
    · rw [heq]

end Sys

/-- The host and the parser task leave the servo and the commands that were executed. -/
theorem executed_of_transfer {s s' : Sys} {e : Ev} (he : e.isTransfer = true)
    (hs : step s e = some s') : s'.executed = s.executed ∧ s'.servoMatch = s.servoMatch := by
  cases e with
  | hostSend line =>
      rw [← Option.some_inj.mp hs]
      exact ⟨rfl, rfl⟩
  | hostReceive =>
      obtain ⟨r, replies, -, rfl⟩ := Sys.hostReceive_cases hs
      exact ⟨rfl, rfl⟩
  | parserDelayed =>
      obtain ⟨-, rfl⟩ := Sys.parserDelayed_cases hs
      exact ⟨rfl, rfl⟩
  | parserReceive =>
      obtain ⟨-, line, lines, -, ⟨g, -, rfl⟩ | ⟨-, rfl⟩⟩ := Sys.parserReceive_cases hs
      · exact ⟨rfl, rfl⟩
      · exact ⟨rfl, rfl⟩
  | parserSend =>
      obtain ⟨-, -, rfl⟩ := Sys.parserSend_cases hs
      exact ⟨rfl, rfl⟩
  | _ => cases he

/-- What one step does: it begins the commands `os`, and what is marked and still to be marked
grows by their marks. -/
structure Sys.Marks (s : Sys) (e : Ev) (s' : Sys) (os : List Order) : Prop where
  executed : s'.executed = s.executed ++ os
  pen : s'.pen = os.foldl (Pen.obey s.motors.scale) s.pen
  marks : s.marked e ++ s'.toMark = s.toMark ++ picture s.motors.scale s.pen os

namespace Sys.Marks
variable {s s' : Sys} {e : Ev}

/-- A step that begins no command and gives no pulse. -/
theorem of_same (hs : step s e = some s') (hmotors : s'.motors = s.motors)
    (hdrawer : s'.drawer = s.drawer) (hservo : s'.servoMatch = s.servoMatch)
    (hexecuted : s'.executed = s.executed)
    (hpc : s'.stepper = s.stepper ∨ s.stepper.waits = false ∧ s'.stepper.waits = false) :
    s.Marks e s' [] := by
  have hdir : s'.dir = s.dir := by
    funext a
    rw [dir, dir, hmotors]
  have hrest : s'.pen = s.pen ∧ s'.toMark = s.toMark := by
    rcases hpc with heq | ⟨hrest, hrest'⟩
    · rw [Sys.pen, Sys.pen, goal, goal, toMark, toMark, heq, hdrawer, hservo, hdir, hmotors]
      exact ⟨rfl, rfl⟩
    · rw [Sys.pen, Sys.pen, goal_of_rest hrest, goal_of_rest hrest', hdrawer, hservo,
        toMark_of_rest hrest, toMark_of_rest hrest']
      exact ⟨rfl, rfl⟩
  refine ⟨by rw [hexecuted, List.append_nil], hrest.1, ?_⟩
  rw [marked_of_pins hs (by rw [hmotors]; exact fun _ => rfl), hrest.2, picture]
  exact (List.append_nil _).symm

/-- A command that makes no move. -/
theorem of_order (hs : step s e = some s') (hmotors : s'.motors = s.motors)
    (hrest : s.stepper.waits = false) (hrest' : s'.stepper.waits = false) {o : Order}
    (hexecuted : s'.executed = s.executed ++ [o])
    (hpen : (⟨s'.servoMatch, s'.drawer⟩ : Pen) = Pen.obey s.motors.scale ⟨s.servoMatch, s.drawer⟩ o)
    (hnone : ∀ p, Pen.marks s.motors.scale p o = []) : s.Marks e s' [o] := by
  refine ⟨hexecuted, ?_, ?_⟩
  · rw [Sys.pen, Sys.pen, goal_of_rest hrest, goal_of_rest hrest', hpen]
    rfl
  · rw [marked_of_pins hs (by rw [hmotors]; exact fun _ => rfl), toMark_of_rest hrest,
      toMark_of_rest hrest', picture, hnone]
    rfl

/-- A stretch of a move. -/
theorem of_draw (hs : step s e = some s') {t : Sys} {object : GObject} {calls : List Event}
    {after : Drawer} {os : List Order} (hsys : s' = t.draw object calls after)
    (hcalls : ∀ call ∈ calls, call.Stroke)
    (hpin : ∀ a, t.motors.engine.stepPin a = s.motors.engine.stepPin a)
    (hexecuted : t.executed = s.executed ++ os)
    (hpen : (⟨t.servoMatch, after⟩ : Pen) = os.foldl (Pen.obey s.motors.scale) s.pen)
    (hmarks : calls.flatMap (Event.marks t.servoMatch t.dir) =
      s.toMark ++ picture s.motors.scale s.pen os) : s.Marks e s' os := by
  obtain ⟨htoMark, hleft, hbegun⟩ := t.toMark_draw object after hcalls
  have hnone : s.marked e = [] := by
    apply marked_of_pins hs
    intro a
    rw [hsys]
    exact ((t.drawn object after hcalls).pin a).trans (hpin a)
  refine ⟨?_, ?_, ?_⟩
  · rw [hsys, hbegun, hexecuted]
  · rw [hsys, hleft, hpen]
  · rw [hnone, hsys, htoMark, hmarks]
    rfl

theorem stepperReceive (hs : s.stepperReceive = some s') : ∃ os, s.Marks .stepperReceive s' os := by
  have hstep : step s .stepperReceive = some s' := hs
  obtain ⟨hpc, g, -, hsys⟩ := Sys.stepperReceive_cases hs
  have hrest : s.stepper.waits = false := by rw [hpc]; rfl
  cases horder : g.order? with
  | none =>
      rw [horder] at hsys
      refine ⟨[], of_same hstep (by rw [hsys]; rfl) (by rw [hsys]; rfl) (by rw [hsys]; rfl) ?_
        (.inl (by rw [hsys]; rfl))⟩
      rw [hsys, take, horder]
      exact List.append_nil _
  | some o =>
      have hexecuted : (s.take g).executed = s.executed ++ [o] := by rw [take, horder]; rfl
      rw [horder] at hsys
      refine ⟨[o], ?_⟩
      cases o with
      | M10 =>
          exact of_order hstep (by rw [hsys]; rfl) hrest (by rw [hsys]; rfl)
            (by rw [hsys]; exact hexecuted) (by rw [hsys]; rfl) fun _ => rfl
      | M1 servo =>
          exact of_order hstep (by rw [hsys]; rfl) hrest (by rw [hsys]; rfl)
            (by rw [hsys]; exact hexecuted) (by rw [hsys]; rfl) fun _ => rfl
      | G28 =>
          exact of_order hstep (by rw [hsys]; rfl) hrest (by rw [hsys]; rfl)
            (by rw [hsys]; exact hexecuted) (by rw [hsys]; rfl) fun _ => rfl
      | G1 x y =>
          obtain ⟨rfl, rfl⟩ := GObject.coord_of_order horder
          simp only [Sys.draw_moveEvents] at hsys
          refine of_draw hstep hsys stroke_of_mem_moveStrokes ?_ hexecuted ?_ ?_
          · intro a
            cases a <;> rfl
          · rw [Sys.pen, goal_of_rest hrest]
            rfl
          · have hdir : (fun a => ((s.motors.turnTo g s.drawer).axis a).dir) =
                fun a => decide (s.drawer.recorded a < g.coord a) := by
              funext a
              rw [s.motors.axis_turnTo g s.drawer a]
            change List.flatMap (Event.marks s.servoMatch
              fun a => ((s.motors.turnTo g s.drawer).axis a).dir) _ = _
            rw [hdir, toMark_of_rest hrest, Sys.pen, goal_of_rest hrest, picture, picture,
              List.append_nil]
            rfl

/-- The next wait of a move. -/
theorem stepperWake (h : s.Steady) (hs : s.stepperWake = some s') : s.Marks .stepperWake s' [] := by
  have hstep : step s .stepperWake = some s' := hs
  obtain ⟨object, calls, after, hpc, hsb, hsys⟩ := Sys.stepperWake_cases hs
  have hcalls := h.strokes object calls after hpc
  have hdone := h.left_of_wake hpc hsb
  have hcome : Plotter.marks s.servoMatch s.dir s.motors.engine.toCome = [] := by
    apply marks_zero
    intro a
    rw [Engine.toCome, if_pos (hdone a)]
  have hdir : (fun a => (s.motors.wake.axis a).dir) = s.dir := by
    funext a
    rw [Motors.axis_wake, dir]
  refine of_draw hstep hsys hcalls ?_ (List.append_nil _).symm ?_ ?_
  · intro a
    cases a <;> rfl
  · rw [Sys.pen, goal, hpc]
    rfl
  · change calls.flatMap (Event.marks s.servoMatch fun a => (s.motors.wake.axis a).dir) = _
    rw [hdir, toMark, hpc, picture, List.append_nil]
    simp only [hcome, List.nil_append]

/-- The interrupts of a wait mark what it has still to give. -/
theorem interrupt {rd : Readings} (h : s.Steady) (hcalibrated : s.Calibrated)
    (hclear : Unhindered s (.interrupt rd)) (hs : s.interrupt rd = some s') :
    s.Marks (.interrupt rd) s' [] := by
  have hstep : step s (.interrupt rd) = some s' := hs
  obtain ⟨ht, hsys⟩ := Sys.interrupt_cases hs
  obtain ⟨b, hstepping⟩ := h.stepping
  obtain ⟨hstepping', hpulses⟩ := hstepping.interrupt (h.engine.1.unheld ht b) (hclear b)
  obtain ⟨object, calls, after, hpc⟩ := h.drawing_of_timer hcalibrated ht
  have hdir : s'.dir = s.dir := by
    funext a
    rw [dir, dir, hsys]
    exact congrArg AxisState.dir (s.motors.axis_interrupt rd a)
  have hengine : s'.motors.engine = RIT_IRQHandler s.motors.flags rd s.motors.engine := by
    rw [hsys]
    rfl
  rw [← hengine] at hstepping' hpulses
  refine ⟨by rw [hsys, List.append_nil], by rw [hsys]; rfl, ?_⟩
  have hwait : s.marked (.interrupt rd) ++
      Plotter.marks s.servoMatch s.dir s'.motors.engine.toCome =
        Plotter.marks s.servoMatch s.dir s.motors.engine.toCome := by
    have hother : s.motors.engine.toCome b.other = 0 := if_pos hstepping.other
    have hother' : s'.motors.engine.toCome b.other = 0 := if_pos hstepping'.other
    rw [marked_of_step hstep]
    apply marks_append (a := b)
    · have hstays := hpulses b.other
      omega
    · exact hother'
    · intro a
      have hpulse := hpulses a
      have hless := RIT_IRQHandler_toCome_le (h.engine.1.unheld ht a) rd
      rw [← hengine] at hless
      omega
  have hstepper : s'.stepper = .drawing object calls after := by rw [hsys, hpc]
  have hservo : s'.servoMatch = s.servoMatch := by rw [hsys]
  rw [toMark, toMark, hstepper, hpc, hdir, hservo, picture, List.append_nil]
  rw [← List.append_assoc, hwait]

end Sys.Marks

/-- **One step** after calibration, in which no switch is in the way. -/
theorem marks_of_step {s s' : Sys} {e : Ev} (h : s.Steady) (hcalibrated : s.Calibrated)
    (hclear : Unhindered s e) (hs : step s e = some s') : ∃ os, s.Marks e s' os := by
  cases e with
  | hostSend _ | hostReceive | parserDelayed | parserReceive | parserSend =>
      have hsame := sameWork_of_transfer rfl hs
      obtain ⟨hexecuted, hservo⟩ := executed_of_transfer rfl hs
      exact ⟨[], .of_same hs hsame.motors_eq hsame.drawer_eq hservo hexecuted
        (.inl hsame.stepper_eq)⟩
  | stepperDelayed =>
      obtain ⟨hpc, hsys⟩ := Sys.stepperDelayed_cases hs
      exact ⟨[], .of_same hs (by rw [hsys]) (by rw [hsys]) (by rw [hsys]) (by rw [hsys])
        (.inr ⟨by rw [hpc]; rfl, by rw [hsys]; rfl⟩)⟩
  | stepperReceive => exact Sys.Marks.stepperReceive hs
  | stepperExpire =>
      obtain ⟨hpc, -, hsys⟩ := Sys.stepperExpire_cases hs
      exact ⟨[], .of_same hs (by rw [hsys]) (by rw [hsys]) (by rw [hsys]) (by rw [hsys])
        (.inr ⟨by rw [hpc]; rfl, by rw [hsys]; rfl⟩)⟩
  | stepperSent =>
      obtain ⟨hpc, hsys⟩ | ⟨pause, hpc, hsys⟩ := Sys.stepperSent_cases hs
      · exact ⟨[], .of_same hs (by rw [hsys]) (by rw [hsys]) (by rw [hsys]) (by rw [hsys])
          (.inr ⟨by rw [hpc]; rfl, by rw [hsys]; rfl⟩)⟩
      · exact ⟨[], .of_same hs (by rw [hsys]) (by rw [hsys]) (by rw [hsys]) (by rw [hsys])
          (.inr ⟨by rw [hpc]; rfl, by rw [hsys]; cases pause <;> rfl⟩)⟩
  | stepperWake => exact ⟨[], .stepperWake h hs⟩
  | calibrateRun rd =>
      obtain ⟨hpc, -⟩ | ⟨a, hpc, -⟩ := Sys.calibrateRun_cases hs
      · rw [hcalibrated.done] at hpc
        cases hpc
      · rw [hcalibrated.done] at hpc
        cases hpc
  | interrupt rd => exact ⟨[], .interrupt h hcalibrated hclear hs⟩

/-! ## The picture of a run -/

/-- Since the state `s₀` the marks `drawn` were made: with those to come they are the picture of
the commands that were begun since. -/
structure Sys.Paints (s₀ s : Sys) (drawn : List Mark) : Prop where
  calibrated : s.Calibrated
  steady : s.Steady
  scale_eq : s.motors.scale = s₀.motors.scale
  picture : ∃ os, s.executed = s₀.executed ++ os ∧
    s.pen = os.foldl (Pen.obey s₀.motors.scale) s₀.pen ∧
    drawn ++ s.toMark = picture s₀.motors.scale s₀.pen os

namespace Sys.Paints
variable {s₀ s s' : Sys} {drawn : List Mark}

theorem refl (h : s.Resting) : s.Paints s [] where
  calibrated := h.calibrated
  steady := h.steady
  scale_eq := rfl
  picture := ⟨[], (List.append_nil _).symm, rfl, toMark_of_rest h.rest⟩

theorem step {e : Ev} (h : s₀.Paints s drawn) (hclear : Unhindered s e)
    (hs : step s e = some s') : s₀.Paints s' (drawn ++ s.marked e) := by
  obtain ⟨os, hexecuted, hpen, hdrawn⟩ := h.picture
  obtain ⟨os', hmarks⟩ := marks_of_step h.steady h.calibrated hclear hs
  refine ⟨h.calibrated.step hs, h.steady.step (h.calibrated.movesAlone e) hclear hs,
    (scale_of_step hs h.calibrated.done).trans h.scale_eq, os ++ os', ?_, ?_, ?_⟩
  · rw [hmarks.executed, hexecuted, List.append_assoc]
  · rw [hmarks.pen, hpen, h.scale_eq, List.foldl_append]
  · rw [List.append_assoc, hmarks.marks, ← List.append_assoc, hdrawn, hpen, h.scale_eq,
      picture_append]

/-- What was drawn is the beginning of the picture, and with no move under way all of it. -/
theorem drawn_begins (h : s₀.Paints s drawn) : ∃ os, s.executed = s₀.executed ++ os ∧
    drawn <+: Plotter.picture s₀.motors.scale s₀.pen os ∧
    (s.stepper.waits = false → drawn = Plotter.picture s₀.motors.scale s₀.pen os) := by
  obtain ⟨os, hexecuted, -, hdrawn⟩ := h.picture
  refine ⟨os, hexecuted, ?_, ?_⟩
  · rw [← hdrawn]
    exact List.prefix_append _ _
  · intro hrest
    rw [← hdrawn, toMark_of_rest hrest, List.append_nil]

end Sys.Paints

theorem paints_of_run {s₀ s : Sys} {es : List Ev} (h : s₀.Resting)
    (hclear : Along step Unhindered s₀ es) (hrun : run step s₀ es = some s) :
    s₀.Paints s (outputs step Sys.marked s₀ es) :=
  run_outputs (I := s₀.Paints) (fun _ _ _ _ h hclear hs => h.step hclear hs) (.refl h) hclear hrun

/-- **A run draws the picture of its commands.** From a state after calibration with no move under
way, and with no switch in the way: whatever the host, the parser task, the timer and the stepper
task do in between, the carriage steps and the servo at each of them are those that the commands
executed in the run would give one after the other, as far as the move under way has come. -/
theorem draws_picture {es fs : List Ev} {s₀ s : Sys} (hG : Along step Undisturbed Sys.init es)
    (hstart : run step Sys.init es = some s₀) (hdone : s₀.calibrate = .done)
    (hrest : s₀.stepper.waits = false) (hclear : Along step Unhindered s₀ fs)
    (hrun : run step s₀ fs = some s) : ∃ os, s.executed = s₀.executed ++ os ∧
      outputs step Sys.marked s₀ fs <+: picture s₀.motors.scale s₀.pen os ∧
      (s.stepper.waits = false →
        outputs step Sys.marked s₀ fs = picture s₀.motors.scale s₀.pen os) :=
  (paints_of_run (resting_of_run hG hstart hdone hrest) hclear hrun).drawn_begins

/-- `M1 0`, and then a move by two steps and one. -/
def liftAndMove : List Ev :=
  [.hostSend { read := 2, angle := 0 }, .parserReceive, .parserSend, .stepperReceive,
    .stepperSent, .stepperDelayed] ++ moveTo 1 2 ++ stepAndWake ++ stepAndWake ++ stepAndWake

theorem draws_picture_liftAndMove : ∃ s₀ s, run step Sys.init bothAxes = some s₀ ∧
    run step s₀ liftAndMove = some s ∧
    outputs step Sys.marked s₀ liftAndMove =
      [⟨1600, .y, true⟩, ⟨1600, .x, true⟩, ⟨1600, .y, true⟩] ∧
    ∃ os, s.executed = s₀.executed ++ os ∧
      outputs step Sys.marked s₀ liftAndMove <+: picture s₀.motors.scale s₀.pen os ∧
      (s.stepper.waits = false →
        outputs step Sys.marked s₀ liftAndMove = picture s₀.motors.scale s₀.pen os) := by
  obtain ⟨s₀, hs₀, hdone, hrest, hclear, hmarked, hgo⟩ : ∃ s₀,
      run step Sys.init bothAxes = some s₀ ∧ s₀.calibrate = .done ∧ s₀.stepper.waits = false ∧
      Along step Unhindered s₀ liftAndMove ∧
      outputs step Sys.marked s₀ liftAndMove =
        [⟨1600, .y, true⟩, ⟨1600, .x, true⟩, ⟨1600, .y, true⟩] ∧
      (run step s₀ liftAndMove).isSome = true := exists_of_run (by decide +kernel)
  obtain ⟨s, hs⟩ := Option.isSome_iff_exists.mp hgo
  exact ⟨s₀, s, hs₀, hs, hmarked,
    draws_picture undisturbed_bothAxes hs₀ hdone hrest hclear hs⟩

end Plotter
