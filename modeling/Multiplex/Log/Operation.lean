import Multiplex.Log.Logger

/-! What can be asked of the logger, and what its open file does unasked. -/
namespace Multiplex.Log.Logger

/-- What a call that opens a file is told of the file that the system finds is part of the call. -/
inductive Operation where
  | init (level : Level) (file : Bytes) (console : Bool) (found : Option Bytes)
  | apply (setup : Setup) (found : Option Bytes)
  | setLevel (level : Level)
  | setConsole (console : Bool)
  | log (level : Level) (source : Option Bytes) (text : Bytes)
  | logGuarded (level : Level) (source : Option Bytes) (text : Bytes)
  | flush
  | shutdown
  /-- Some of the lines that wait are written out early. -/
  | spill (count : Nat)

def perform (g : Logger) : Operation → Logger
  | .init level file console found => (g.initAt level file console found).2
  | .apply setup found => (g.applyAt setup found).2
  | .setLevel level => g.setLevel level
  | .setConsole console => g.setConsole console
  | .log level source text => g.log (lineOf level source text)
  | .logGuarded level source text => g.logGuarded level fun _ => lineOf level source text
  | .flush => g.flush
  | .shutdown => g.shutdown
  | .spill count => { g with held := g.held - count }

def run (g : Logger) (ops : List Operation) : Logger := ops.foldl perform g

end Multiplex.Log.Logger
