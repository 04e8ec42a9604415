import Plotter.Lib.Loop
import Plotter.Lib.Transition
import Plotter.Lib.Dda
import Plotter.LineDrawer
import Plotter.Carriage
import Plotter.Moves.Drift
import Plotter.Calibrate
import Plotter.Pulses
import Plotter.Moves.Area
import Plotter.Moves.Recovery
import Plotter.Moves.Line
import Plotter.Lib.Lines
import Plotter.LineReader
import Plotter.Lib.Decimal
import Plotter.Motors
import Plotter.Calibrate.Waits
import Plotter.System
import Plotter.System.Sharing
import Plotter.System.Home
import Plotter.Lib.Pipe
import Plotter.System.Commands
import Plotter.System.Acknowledge
import Plotter.GCodeParser
import Plotter.GCodeParser.Commands
import Plotter.GCodeParser.Angle
import Plotter.GCodeParser.Bounds
import Plotter.Cdc
import Plotter.GCodeParser.Coords
import Plotter.Cdc.Buffers
import Plotter.Cdc.Receive
import Plotter.Cdc.Send
import Plotter.Cdc.Release
import Plotter.Moves.Split
import Plotter.Moves.Mirror
import Plotter.StepEngine.Countdown
import Plotter.Calibrate.Motor
import Plotter.Cdc.Chunks
import Plotter.Cdc.Drain
import Plotter.GCodeParser.Session
import Plotter.Firmware
import Plotter.Firmware.Commands
import Plotter.Firmware.Replies
import Plotter.Firmware.Waiting
import Plotter.System.Progress
import Plotter.Cdc.Deliver
import Plotter.Firmware.Progress
import Plotter.StepEngine.Stroke
import Plotter.System.Strokes
import Plotter.System.Carriages
import Plotter.System.Targets
import Plotter.System.Picture
import Plotter.Firmware.Drawing
import Plotter.Firmware.Picture
import Plotter.Lib.Records
import Plotter.Cdc.Descriptors
