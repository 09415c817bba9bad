import Multiplex.Decimal
import Multiplex.Log.Logger
import Multiplex.Wire.Settings

/-! Configuration of a connection, its checks, and the options that follow from it. -/
namespace Multiplex

open Bytes

structure Config where
  idleTimeoutSeconds : UInt32 := 240
  maxSize : Int := 1024 * 1024 * 1024
  warnSize : Int := 32 * 1024 * 1024
  headerTableSize : UInt32 := 4096
  enablePush : Bool := false
  maxConcurrentStreams : UInt32 := 100
  initialWindowSize : UInt32 := 65535
  maxFrameSize : UInt32 := 16384
  logging : Log.Setup := {}
  deriving DecidableEq

/-- What a connection is opened with. A size of zero is no limit. -/
structure Options where
  idleTimeout : UInt64 := 240 * 1000
  maxSize : Int := 1024 * 1024 * 1024
  warnSize : Int := 32 * 1024 * 1024
  settings : Wire.Settings := {}
  deriving DecidableEq

namespace Config

inductive Issue where
  | idleTimeout
  | negativeSize
  | warnAboveMax (warnSize maxSize : Int)
  | windowSize (size : UInt32)
  | frameSize (size : UInt32)
  | noStreams
  | logLevel (name : Bytes)
  deriving DecidableEq

def Issue.fault : Issue → Fault
  | idleTimeout => .plain .configInvalidValue "idle_timeout_seconds must be positive"
  | negativeSize => .plain .configInvalidValue "download sizes must not be negative"
  | warnAboveMax w m => ⟨.configInvalidValue,
      ascii "download_warnsize (" ++ Decimal.writeInt w ++ ascii ") exceeds download_maxsize ("
        ++ Decimal.writeInt m ++ ascii ")"⟩
  | windowSize n => ⟨.configInvalidValue, ascii "Invalid initial_window_size: " ++ Decimal.write n.toNat⟩
  | frameSize n => ⟨.configInvalidValue, ascii "Invalid max_frame_size: " ++ Decimal.write n.toNat⟩
  | noStreams => .plain .configInvalidValue "max_concurrent_streams must be positive"
  | logLevel name => ⟨.configInvalidLogLevel, ascii "Invalid log level: " ++ name⟩

def largestWindow : UInt32 := 0x7FFFFFFF
def smallestFrame : UInt32 := 16384
def largestFrame : UInt32 := 16777215

def issue (c : Config) : Option Issue :=
  if c.idleTimeoutSeconds = 0 then some .idleTimeout
  else if c.maxSize < 0 ∨ c.warnSize < 0 then some .negativeSize
  else if 0 < c.maxSize ∧ c.maxSize < c.warnSize then some (.warnAboveMax c.warnSize c.maxSize)
  else if largestWindow < c.initialWindowSize then some (.windowSize c.initialWindowSize)
  else if c.maxFrameSize < smallestFrame ∨ largestFrame < c.maxFrameSize then some (.frameSize c.maxFrameSize)
  else if c.maxConcurrentStreams = 0 then some .noStreams
  else if (Log.Level.ofName c.logging.level).isNone then some (.logLevel c.logging.level)
  else none

def validate (c : Config) : Option Fault := c.issue.map Issue.fault

def unopened (path : Bytes) : Fault := ⟨.fileNotFound, ascii "Cannot open config file: " ++ path⟩

def options (c : Config) : Options where
  idleTimeout := c.idleTimeoutSeconds.toUInt64 * 1000
  maxSize := c.maxSize
  warnSize := c.warnSize
  settings :=
    { headerTableSize := c.headerTableSize
      enablePush := if c.enablePush then 1 else 0
      maxConcurrentStreams := c.maxConcurrentStreams
      initialWindowSize := c.initialWindowSize
      maxFrameSize := c.maxFrameSize }

theorem validate_default : validate {} = none := by decide

theorem options_default : options {} = {} := by decide

end Config

end Multiplex
