import Mathlib.Data.Rat.Defs

/-!
# The options of `opts.hh`

`Config` is what the command lines are parsed into and what the client works
with.  A `double` is an exact number here, or none at all.  The unparsed
arguments are left out.
-/

namespace Mutated.Ports

/-- `Config::protocols`. -/
inductive Protocol
  | synthetic
  | memcache
  deriving DecidableEq, Repr

/-- `Config::conn_modes`. -/
inductive ConnMode
  | perRequest
  | roundRobin
  | random
  deriving DecidableEq, Repr

/-- `Config::service_distributions`. -/
inductive ServiceDist
  | fixed
  | exponential
  | logNormal
  deriving DecidableEq, Repr

/-- The values of a `double`. -/
inductive Double
  | num (q : ℚ)
  | inf (negative : Bool)
  | nan
  deriving DecidableEq, Repr

/-- `Config`, with its defaults.  `addr` is the text without its terminator. -/
structure Config where
  protocol : Protocol := .synthetic
  addr : List Char := []
  port : UInt16 := 0
  label : List Char := "default".toList
  serviceUs : Double := .num 0
  reqS : Double := .num 0
  warmupSeconds : UInt64 := 5
  cooldownSeconds : UInt64 := 5
  samples : UInt64 := 0
  machineReadable : Bool := false
  useEpollSpin : Bool := false
  useBusyTimer : Bool := false
  saveIatimes : Option (List Char) := none
  connMode : ConnMode := .roundRobin
  connCnt : UInt64 := 10
  serviceDist : ServiceDist := .exponential
  missedWindowUs : UInt64 := 100
  sendOnly : Bool := false
  records : UInt64 := 10000
  keysize : UInt64 := 30
  valsize : UInt64 := 4 * 1024
  setget : Double := .num 0
  deriving DecidableEq

end Mutated.Ports
