/-! The settings that one side announces when the connection opens. -/
namespace Multiplex.Wire

structure Settings where
  headerTableSize : UInt32 := 4096
  enablePush : UInt32 := 0
  maxConcurrentStreams : UInt32 := 100
  initialWindowSize : UInt32 := 65535
  maxFrameSize : UInt32 := 16384
  deriving DecidableEq, Inhabited

end Multiplex.Wire
