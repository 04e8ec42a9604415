import Plotter.System

/-!
# Who uses the step engine

`vCalibrate` and `vStepperTask` wait for the same semaphore after they have set the same
two counters. Nothing keeps the stepper task from a move while calibration goes on. As long
as no axis is calibrated its moves are empty, since the scales are zero; between the
calibration of the first axis and of the second they are not, and then both tasks have
the engine at once.

## Main definitions

* `Sys.EngineSafe`: at most one task waits for the engine, and it is not wedged.
* `MovesAlone`: a move is begun with both axes calibrated, or makes no step.
* `EnginePhase`: the phases in which one task at most uses the engine.
* `engineSafe_iff`: the engine is safe along the runs whose moves are all begun so.
-/

namespace Plotter

open Lib

/-- The stepper task waits for the engine. -/
def StepperPc.waits : StepperPc → Bool
  | .drawing _ _ _ => true
  | _ => false

/-- The tasks do not both wait for the engine, and some interrupt will end the wait. -/
def Sys.EngineSafe (s : Sys) : Prop :=
  ¬ (s.calibrate.waitsFor.isSome ∧ s.stepper.waits) ∧ ¬ s.motors.Wedged

/-- The command at the head of the queue, if it is a `G1`, finds both axes calibrated or
the pen where it is to go. -/
def MovesAlone (s : Sys) (e : Ev) : Prop :=
  e = .stepperReceive → ∀ g ∈ s.commandQueue, Command.ofInt? g.command = some .G1 →
    s.motors.BothCalibrated ∨ ∀ a, displacement a s.motors.scale g s.drawer = 0

namespace Engine

/-- Nobody waits for the engine. -/
def Free (e : Engine) : Prop := e.timer = false ∧ e.sbRIT = false

/-- Somebody waits: the timer runs until `sbRIT` is given. -/
def Taken (e : Engine) : Prop := e.timer = !e.sbRIT

theorem Free.taken_begin {e : Engine} (h : e.Free) (x y : ℤ) : (RIT_begin x y e).Taken := by
  simp [Taken, RIT_begin, h.2]

theorem Taken.free_wake {e : Engine} (h : e.Taken) (hsb : e.sbRIT = true) :
    (RIT_wake e).Free := by
  rw [Taken, hsb] at h
  exact ⟨h, rfl⟩

theorem Taken.handler {e : Engine} (h : e.Taken) (fl : Flags) (rd : Readings) :
    (RIT_IRQHandler fl rd e).Taken := by
  unfold Taken
  rcases RIT_IRQHandler_timer fl rd e with ⟨ht, hs⟩ | ⟨ht, hs⟩
  · rw [ht, hs]
    rfl
  · rw [ht, hs]
    exact h

end Engine

/-- The phases of the engine. Each allows a wait to one task at most. -/
inductive EnginePhase : CalibratePc → Bool → Motors → Prop
  | before {m : Motors} (hflags : ∀ a, (m.axis a).calibrated = false) (hfree : m.engine.Free) :
      EnginePhase .ready false m
  | calibrating {pc : CalibratePc} {m : Motors} (a : Axis) (hpc : pc.waitsFor = some a)
      (hflag : (m.axis a).calibrated = false) (hother : m.engine.steps a.other = 0)
      (htaken : m.engine.Taken) : EnginePhase pc false m
  | idle {m : Motors} (hflags : m.BothCalibrated) (hfree : m.engine.Free) :
      EnginePhase .done false m
  | drawing {m : Motors} (hflags : m.BothCalibrated) (htaken : m.engine.Taken) :
      EnginePhase .done true m

/-- The phase of the engine, and no scale before calibration. -/
def Sys.EngineInv (s : Sys) : Prop :=
  EnginePhase s.calibrate s.stepper.waits s.motors ∧ s.motors.Unscaled

theorem EnginePhase.safe {s : Sys} (h : EnginePhase s.calibrate s.stepper.waits s.motors) :
    s.EngineSafe := by
  rw [Sys.EngineSafe, Motors.wedged_iff]
  generalize s.calibrate = pc, s.stepper.waits = w at h ⊢
  cases h with
  | before hflags hfree =>
      refine ⟨by simp, ?_⟩
      rintro ⟨ht, -⟩
      rw [hfree.1] at ht
      exact Bool.false_ne_true ht
  | calibrating a hpc hflag hother htaken =>
      refine ⟨by simp, ?_⟩
      rintro ⟨-, b, hpos, hon, -⟩
      -- the axis that counts is not calibrated, the counter of the other one is empty
      by_cases hab : b = a
      · rw [hab, hflag] at hon
        exact Bool.false_ne_true hon
      · have hb : b = a.other := by cases a <;> cases b <;> first | rfl | exact absurd rfl hab
        rw [hb, hother] at hpos
        exact absurd hpos (by decide)
  | idle hflags hfree =>
      refine ⟨by simp, ?_⟩
      rintro ⟨ht, -⟩
      rw [hfree.1] at ht
      exact Bool.false_ne_true ht
  | drawing hflags htaken =>
      refine ⟨by simp [CalibratePc.waitsFor], ?_⟩
      rintro ⟨-, b, -, -, hoff⟩
      rw [hflags b.other] at hoff
      exact Bool.false_ne_true hoff.symm

/-! ## One step -/

/-- A stretch of `vCalibrate` from a free engine leads to a phase again. -/
theorem Settles.phase {e : Engine} {r : Motors × CalibratePc} (h : Settles e r) (he : e.Free) :
    EnginePhase r.2 false r.1 := by
  cases h with
  | waits a hpc hflag hengine =>
      refine .calibrating a hpc hflag ?_ ?_
      · rw [hengine]
        cases a <;> rfl
      · rw [hengine]
        exact he.taken_begin _ _
  | ends hflags hengine => exact .idle hflags (hengine ▸ he)

namespace EnginePhase
variable {pc : CalibratePc} {w : Bool} {m : Motors}

theorem of_ready (h : EnginePhase .ready w m) : w = false ∧ m.engine.Free := by
  cases h with
  | before _ hfree => exact ⟨rfl, hfree⟩
  | calibrating _ hpc => cases hpc

theorem of_waitsFor (h : EnginePhase pc w m) {a : Axis} (hpc : pc.waitsFor = some a) :
    w = false ∧ (m.axis a).calibrated = false ∧ m.engine.Taken := by
  cases h with
  | before => cases hpc
  | calibrating b hb hflag _ htaken =>
      obtain rfl : a = b := Option.some_inj.mp (hpc.symm.trans hb)
      exact ⟨rfl, hflag, htaken⟩
  | idle => cases hpc
  | drawing => cases hpc

theorem of_drawing (h : EnginePhase pc true m) :
    pc = .done ∧ m.BothCalibrated ∧ m.engine.Taken := by
  cases h with
  | drawing hflags htaken => exact ⟨rfl, hflags, htaken⟩

/-- With both flags set and nobody at work on a move, calibration is over. -/
theorem of_bothCalibrated (h : EnginePhase pc false m) (hflags : m.BothCalibrated) :
    pc = .done ∧ m.engine.Free := by
  cases h with
  | before hoff => exact absurd (hflags .x) (by rw [hoff]; exact Bool.false_ne_true)
  | calibrating a _ hoff => exact absurd (hflags a) (by rw [hoff]; exact Bool.false_ne_true)
  | idle _ hfree => exact ⟨rfl, hfree⟩

theorem handler (h : EnginePhase pc w m) (rd : Readings) (ht : m.engine.timer = true) :
    EnginePhase pc w (m.interrupt rd) := by
  cases h with
  | before _ hfree => exact absurd ht (by rw [hfree.1]; exact Bool.false_ne_true)
  | calibrating a hpc hflag hother htaken =>
      refine .calibrating a hpc (by rwa [Motors.axis_interrupt]) ?_ (htaken.handler _ rd)
      simp only [Motors.interrupt, RIT_IRQHandler_steps, hother, if_true, ite_self]
  | idle _ hfree => exact absurd ht (by rw [hfree.1]; exact Bool.false_ne_true)
  | drawing hflags htaken => exact .drawing (fun a => hflags a) (htaken.handler _ rd)

/-- Setting directions changes no phase. -/
theorem of_axes {m' : Motors} (h : EnginePhase pc w m) (hengine : m'.engine = m.engine)
    (haxis : ∀ a, (m'.axis a).calibrated = (m.axis a).calibrated) : EnginePhase pc w m' := by
  cases h with
  | before hflags hfree =>
      exact .before (fun a => by rw [haxis, hflags]) (by rwa [hengine])
  | calibrating a hpc hflag hother htaken =>
      exact .calibrating a hpc (by rw [haxis, hflag]) (by rw [hengine, hother]) (by rwa [hengine])
  | idle hflags hfree => exact .idle (fun a => by rw [haxis, hflags]) (by rwa [hengine])
  | drawing hflags htaken => exact .drawing (fun a => by rw [haxis, hflags]) (by rwa [hengine])

end EnginePhase

namespace Sys.EngineInv
variable {s s' : Sys}

theorem init : Sys.init.EngineInv :=
  ⟨.before (by rintro (_ | _) <;> rfl) ⟨rfl, rfl⟩, by rintro (_ | _) - <;> rfl⟩

/-- What a step that leaves the motors alone may do. -/
theorem of_same (h : s.EngineInv) (hc : s'.calibrate = s.calibrate)
    (hw : s'.stepper.waits = s.stepper.waits) (hm : s'.motors = s.motors) : s'.EngineInv := by
  rwa [EngineInv, hc, hw, hm]

theorem calibrateRun {rd : Readings} (h : s.EngineInv) (hs : s.calibrateRun rd = some s') :
    s'.EngineInv := by
  rcases calibrateRun_cases hs with ⟨hpc, rfl⟩ | ⟨a, hpc, hsb, rfl⟩
  · obtain ⟨hw, hfree⟩ := (hpc ▸ h.1).of_ready
    refine ⟨?_, h.2.calibrateResume rd .ready⟩
    rw [hw]
    exact (calibrateResume_settles rd (.inl rfl)).phase hfree
  · obtain ⟨hw, hflag, htaken⟩ := h.1.of_waitsFor hpc
    refine ⟨?_, Motors.Unscaled.calibrateResume (m := s.motors.wake) (fun b => ?_) rd s.calibrate⟩
    · rw [hw]
      refine (calibrateResume_settles rd (.inr ⟨a, hpc, ?_⟩)).phase (htaken.free_wake hsb)
      rwa [Motors.axis_wake]
    · rw [Motors.axis_wake]
      exact h.2 b

theorem interrupt {rd : Readings} (h : s.EngineInv) (hs : s.interrupt rd = some s') :
    s'.EngineInv := by
  obtain ⟨ht, rfl⟩ := interrupt_cases hs
  exact ⟨h.1.handler rd ht, fun a => by rw [Motors.axis_interrupt]; exact h.2 a⟩

/-- A stretch of a move, begun with both axes calibrated and the engine free. -/
theorem draw (hpc : s.calibrate = .done) (hflags : s.motors.BothCalibrated)
    (hfree : s.motors.engine.Free) (hscale : s.motors.Unscaled) (object : GObject)
    (calls : List Event) (after : Drawer) : (s.draw object calls after).EngineInv := by
  have hon : (drawUntilWait calls s.motors).1.BothCalibrated := by
    intro a
    obtain ⟨d, hd⟩ := axis_drawUntilWait calls s.motors a
    rw [hd]
    exact hflags a
  rcases draw_cases s object calls after with ⟨rest, hrest, heq⟩ | ⟨hrest, heq⟩
  · obtain ⟨x, y, hbegin⟩ : ∃ x y, (drawUntilWait calls s.motors).1.engine =
        RIT_begin x y s.motors.engine := by
      rcases engine_drawUntilWait calls s.motors with ⟨hnone, -⟩ | ⟨-, h⟩
      · rw [hnone] at hrest
        cases hrest
      · exact h
    rw [heq]
    refine ⟨?_, hscale.drawUntilWait calls⟩
    simp only [hpc, StepperPc.waits]
    exact .drawing hon (hbegin ▸ hfree.taken_begin x y)
  · have hsame : (drawUntilWait calls s.motors).1.engine = s.motors.engine := by
      rcases engine_drawUntilWait calls s.motors with ⟨-, h⟩ | ⟨hsome, -⟩
      · exact h
      · rw [hrest] at hsome
        cases hsome
    rw [heq]
    refine ⟨?_, hscale.drawUntilWait calls⟩
    simp only [hpc, StepperPc.waits]
    exact .idle hon (hsame ▸ hfree)

theorem stepperWake (h : s.EngineInv) (hs : s.stepperWake = some s') : s'.EngineInv := by
  obtain ⟨object, calls, after, hpc, hsb, rfl⟩ := stepperWake_cases hs
  have hw : s.stepper.waits = true := by rw [hpc]; rfl
  obtain ⟨hdone, hflags, htaken⟩ := (hw ▸ h.1).of_drawing
  refine draw (s := { s with motors := s.motors.wake }) hdone (fun a => ?_) (htaken.free_wake hsb)
    (fun a => ?_) object calls after
  · rw [Motors.axis_wake]
    exact hflags a
  · rw [Motors.axis_wake]
    exact h.2 a

/-- A move that makes no step is over at once and leaves the engine as it is. -/
theorem draw_still (h : s.EngineInv) (hw : s.stepper.waits = false) {object : GObject}
    (hzero : ∀ a, displacement a s.motors.scale object s.drawer = 0) (after : Drawer) :
    (s.draw object (moveEvents s.motors.scale object s.drawer) after).EngineInv := by
  have hnone := (drawUntilWait_moveEvents _ _ _ s.motors).mpr hzero
  have hsame := engine_drawUntilWait (moveEvents s.motors.scale object s.drawer) s.motors
  rw [hnone] at hsame
  obtain ⟨-, hengine⟩ := hsame.resolve_right (by simp)
  rcases draw_cases s object (moveEvents s.motors.scale object s.drawer) after with
    ⟨rest, hrest, -⟩ | ⟨-, heq⟩
  · rw [hnone] at hrest
    cases hrest
  · rw [heq]
    refine ⟨(hw ▸ h.1).of_axes hengine fun a => ?_, h.2.drawUntilWait _⟩
    obtain ⟨d, hd⟩ := axis_drawUntilWait (moveEvents s.motors.scale object s.drawer) s.motors a
    rw [hd]

theorem stepperReceive (h : s.EngineInv) (hG : MovesAlone s .stepperReceive)
    (hs : s.stepperReceive = some s') : s'.EngineInv := by
  obtain ⟨hpc, g, hqueue, rfl⟩ := stepperReceive_cases hs
  have hw : s.stepper.waits = false := by rw [hpc]; rfl
  cases horder : g.order? with
  | none => exact h
  | some o =>
      cases o with
      | M10 => exact h.of_same rfl hw.symm rfl
      | M1 servo => exact h.of_same rfl hw.symm rfl
      | G28 => exact h.of_same rfl hw.symm rfl
      | G1 x y =>
          rcases hG rfl g hqueue (g.command_of_order horder) with hflags | hzero
          · obtain ⟨hdone, hfree⟩ := (hw ▸ h.1).of_bothCalibrated hflags
            exact draw (s := s.take g) hdone hflags hfree h.2 ..
          · exact draw_still (s := s.take g) h hw hzero _

/-- Steps that begin no move while the other task may need the engine keep the phases. -/
theorem step {e : Ev} (h : s.EngineInv) (hG : MovesAlone s e) (hs : step s e = some s') :
    s'.EngineInv := by
  cases e with
  | hostSend _ | hostReceive | parserDelayed | parserReceive | parserSend =>
      have hsame := sameWork_of_transfer rfl hs
      exact h.of_same hsame.calibrate_eq (by rw [hsame.stepper_eq]) hsame.motors_eq
  | stepperDelayed =>
      obtain ⟨hpc, rfl⟩ := stepperDelayed_cases hs
      exact h.of_same rfl (by rw [hpc]; rfl) rfl
  | stepperReceive => exact h.stepperReceive hG hs
  | stepperExpire =>
      obtain ⟨hpc, -, rfl⟩ := stepperExpire_cases hs
      exact h.of_same rfl (by rw [hpc]; rfl) rfl
  | stepperSent =>
      obtain ⟨hpc, rfl⟩ | ⟨pause, hpc, rfl⟩ := stepperSent_cases hs
      · exact h.of_same rfl (by rw [hpc]; rfl) rfl
      · exact h.of_same rfl (by rw [hpc]; cases pause <;> rfl) rfl
  | stepperWake => exact h.stepperWake hs
  | calibrateRun rd => exact h.calibrateRun hs
  | interrupt rd => exact h.interrupt hs

/-- A move with a step to make, begun before both axes are calibrated, finds calibration
waiting for the engine. -/
theorem not_safe {e : Ev} (h : s.EngineInv) (hG : ¬ MovesAlone s e)
    (hs : Plotter.step s e = some s') : ¬ s'.EngineSafe := by
  simp only [MovesAlone, Classical.not_imp, not_forall, not_or] at hG
  obtain ⟨rfl, g, hqueue, hcommand, hflags, a, hmove⟩ := hG
  obtain ⟨hpc, g', hqueue', rfl⟩ := stepperReceive_cases hs
  obtain rfl : g = g' := Option.some_inj.mp (hqueue.symm.trans hqueue')
  have hw : s.stepper.waits = false := by rw [hpc]; rfl
  have hwaits : s.calibrate.waitsFor.isSome := by
    have hphase := hw ▸ h.1
    generalize s.calibrate = pc at hphase
    cases hphase with
    | before hoff =>
        refine absurd ?_ hmove
        have hscale : s.motors.scale.on a = 0 := by
          cases a
          exacts [h.2 .x (hoff .x), h.2 .y (hoff .y)]
        rw [displacement, hscale, mul_zero]
    | calibrating b hb => rw [hb]; rfl
    | idle hon => exact absurd hon hflags
  have horder : g.order? = some (.G1 g.xCoord g.yCoord) := by rw [GObject.order?, hcommand]
  have hdraw : (drawUntilWait (moveEvents s.motors.scale g s.drawer) s.motors).2 ≠ none := by
    rw [Ne, drawUntilWait_moveEvents]
    exact fun hzero => hmove (hzero a)
  rw [horder]
  rcases draw_cases (s.take g) g (moveEvents s.motors.scale g s.drawer)
    (Plotter.triggerMotors s.motors.scale g s.drawer) with ⟨rest, -, heq⟩ | ⟨hnone, -⟩
  · intro hsafe
    simp only [heq] at hsafe
    exact hsafe.1 ⟨hwaits, rfl⟩
  · exact absurd hnone hdraw

end Sys.EngineInv

/-! ## Whole runs -/

/-- **Sharing the engine.** At most one task waits for the engine, and it is not wedged, in
every state of a run if and only if every `G1` that is taken off the queue finds both axes
calibrated, or the pen where it is to go. -/
theorem engineSafe_iff {es : List Ev} {s : Sys} (hrun : run step Sys.init es = some s) :
    Throughout step Sys.EngineSafe Sys.init es ↔ Along step MovesAlone Sys.init es :=
  (along_iff_throughout (fun _ _ _ h => h.step) (fun _ h => h.1.safe)
    (fun _ _ _ h => h.not_safe) Sys.EngineInv.init hrun).symm

/-- Two interrupts finish a step; then `vCalibrate` reads the switches. -/
def stepAndRead (rd : Readings) : List Ev := [.interrupt {}, .interrupt {}, .calibrateRun rd]

/-- A `G1` line on its way from the host to the stepper task. -/
def moveTo (xCoord yCoord : ℚ) : List Ev :=
  [.hostSend { read := 3, xCoord := xCoord, yCoord := yCoord }, .parserReceive, .parserSend,
    .stepperReceive]

/-- A move that arrives before calibration has counted anything. -/
def earlyMove : List Ev :=
  [.calibrateRun {}, .parserDelayed, .stepperDelayed] ++ stepAndRead {} ++ moveTo 5 7

theorem engineSafe_iff_earlyMove :
    Throughout step Sys.EngineSafe Sys.init earlyMove ↔ Along step MovesAlone Sys.init earlyMove :=
  engineSafe_iff (Option.eq_some_of_isSome (by decide +kernel))

/-- Both axes meet their start switch at once. The X axis then makes 307 steps down to its
end switch, with the Y axis still on its way, and backs off seven; the scale of the X axis is
one step per millimetre. A move by a millimetre arrives while the Y axis makes a step. -/
def halfCalibrated : List Ev :=
  [.calibrateRun {}, .parserDelayed, .stepperDelayed] ++
    stepAndRead { xStart := true } ++ stepAndRead { yStart := true } ++
    (List.replicate 306 (stepAndRead {} ++ stepAndRead {})).flatten ++
    stepAndRead { xEnd := true } ++ (List.replicate 7 (stepAndRead {})).flatten ++ moveTo 1 0

/-- Both tasks wait for the engine, and no interrupt counts the X counter down. -/
theorem halfCalibrated_wedges : ∃ s, run step Sys.init halfCalibrated = some s ∧
    (s.calibrate.waitsFor.isSome ∧ s.stepper.waits) ∧ s.motors.Wedged := by
  have hend : ∃ s, run step Sys.init halfCalibrated = some s ∧
      (s.calibrate.waitsFor.isSome ∧ s.stepper.waits) ∧ s.motors.engine.timer = true ∧
        0 < s.motors.engine.steps .x ∧ (s.motors.axis .x).calibrated = true ∧
          (s.motors.axis .y).calibrated = false := exists_of_run (by decide +kernel)
  obtain ⟨s, hs, hwaits, htimer, hpos, hon, hoff⟩ := hend
  exact ⟨s, hs, hwaits, s.motors.wedged_iff.mpr ⟨htimer, .x, hpos, hon, hoff⟩⟩

end Plotter
