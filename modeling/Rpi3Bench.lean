import Rpi3Bench.ContextSwitch.StrayWakeups
import Rpi3Bench.NetworkRoundTrip.Closing
import Rpi3Bench.PeakBandwidth
import Rpi3Bench.ProcedureCall
import Rpi3Bench.GetMedian.SortedArray
import Rpi3Bench.BlockAccess.Offsets
import Rpi3Bench.PageAccess
import Rpi3Bench.TaskCreation.Limit
import Rpi3Bench.TaskCreation.PrintedLine
import Rpi3Bench.StandardOutput
import Rpi3Bench.FileContention.Readers
import Rpi3Bench.GetMedian.CompareFunction
import Rpi3Bench.GetMedian.Selection
import Rpi3Bench.TaskCreation.MeasuredCalls
import Rpi3Bench.TaskCreation.OverheadCorrection
import Rpi3Bench.PageAccess.MappedFile
import Rpi3Bench.PageAccess.PrintedFigures
import Rpi3Bench.UnsignedTimes
import Rpi3Bench.RamAccessTime
import Rpi3Bench.ContextSwitch.Endings
import Rpi3Bench.FutexOverhead.Outcomes
import Rpi3Bench.FileContention.FairRuns
import Rpi3Bench.NetworkRoundTrip.WholeRun
import Rpi3Bench.ClockGettime.Figures
import Rpi3Bench.PageAccess.FileCacheRun
import Rpi3Bench.MemoryBandwidth
import Rpi3Bench.Calibration
import Rpi3Bench.RamAccessTime.Table
import Rpi3Bench.Descriptors
import Rpi3Bench.FutexOverhead.Printed
import Rpi3Bench.FileRead.WrittenFile
import Rpi3Bench.FileRead.Table
