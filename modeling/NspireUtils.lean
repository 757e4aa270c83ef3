import NspireUtils.Ports.EditorRelease
import NspireUtils.Ports.LastWriter
import NspireUtils.Ports.Alloc
import NspireUtils.Ports.SRAMInterrupts
import NspireUtils.Ports.SRAMIsolation
import NspireUtils.Ports.SRAMRestore
import NspireUtils.Ports.PL190Editor
import NspireUtils.Ports.CPUCheckpoint
import NspireUtils.Ports.AsmAllocation
import NspireUtils.Ports.HookRuns
import NspireUtils.Ports.HookPatch
import NspireUtils.Ports.EntryHooks
import NspireUtils.Ports.ExitHooks
import NspireUtils.Ports.ExitHookArguments
import NspireUtils.Ports.TableCoherence
import NspireUtils.Verified.VirtualCache
import NspireUtils.Ports.AllocBounds
import NspireUtils.Ports.CacheRanges
import NspireUtils.Ports.HookFetch
import NspireUtils.Ports.SRAMConstructor
import NspireUtils.Ports.SRAMWindows
import NspireUtils.Ports.SetterInterrupts
import NspireUtils.Ports.USBSchedules
import NspireUtils.Ports.SRAMCaches
import NspireUtils.Ports.SRAMCopyBack
import NspireUtils.Ports.SRAMStaleLines
import NspireUtils.Ports.PageFrames
import NspireUtils.Ports.USBReset
import NspireUtils.Ports.Watchdog
import NspireUtils.Ports.GuardedSetters
import NspireUtils.Ports.CacheInvalidation
import NspireUtils.Ports.ExceptionVectors
import NspireUtils.Ports.InterruptService
import NspireUtils.Ports.MixedHooks
import NspireUtils.Ports.WatchdogFeeding
import NspireUtils.Ports.PeriodicTimer
import NspireUtils.Ports.SRAMSessions
import NspireUtils.Ports.USBLifetime
import NspireUtils.Ports.InterruptedMain
