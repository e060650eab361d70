import Mathlib.Algebra.Order.Ring.Rat
import Mutated.Ports.Opts
import Mutated.Verified.Rounding

/-!
# The command lines

`parse_synthetic` and `parse_memcache` make a `Config` of the arguments of the
program, or print the usage and exit.  They differ in their options and in the
fixed arguments; the rest is shared.

* An argument is a list of characters that are not zero.  The name of the
  program is left out.
* `getopt` hands out the options of the whole command line at once; the loop
  over its results is a fold.
* The conversions of the C library are those of a machine with 64-bit `long`:
  `strtol` saturates, and `atoi` keeps its low 32 bits.
* A `double` is rounded to the nearest, as `Verified/Rounding.lean` does.
-/

namespace Mutated.Ports

open Mutated.Verified.Rounding

/-! ## `double` -/

namespace Double

/-- The nearest `double`. -/
def ofRat (q : ℚ) : Double :=
  let r := roundTo 53 (-1074) q
  if 2 ^ 1024 ≤ |r| then .inf (r < 0) else .num r

def neg : Double → Double
  | .num q => .num (-q)
  | .inf negative => .inf !negative
  | .nan => .nan

def mul : Double → Double → Double
  | .num a, .num b => ofRat (a * b)
  | .num a, .inf negative =>
      if a = 0 then .nan else .inf (negative ^^ (a < 0))
  | .inf negative, .num b =>
      if b = 0 then .nan else .inf (negative ^^ (b < 0))
  | .inf a, .inf b => .inf (a ^^ b)
  | _, _ => .nan

/-- What is left without the fraction. -/
def truncate (q : ℚ) : ℤ := if q < 0 then ⌈q⌉ else ⌊q⌋

/-- The conversion to `uint64_t`, where it is defined. -/
def toUInt64 : Double → Option UInt64
  | .num q =>
      if 0 ≤ truncate q ∧ truncate q < 2 ^ 64 then
        some (.ofNat (truncate q).toNat)
      else none
  | _ => none

end Double

/-! ## The C library -/

/-- `isspace`. -/
def isSpace (c : Char) : Bool := c = ' ' || (9 ≤ c.toNat && c.toNat ≤ 13)

def skipSpace (s : List Char) : List Char := s.dropWhile isSpace

/-- An optional sign. -/
def scanSign : List Char → Bool × List Char
  | '-' :: s => (true, s)
  | '+' :: s => (false, s)
  | s => (false, s)

/-- `strtol` and `strtoll`, to base ten. -/
def strtol (s : List Char) : Int :=
  let (negative, s) := scanSign (skipSpace s)
  let n := Nat.ofDigitChars 10 (s.takeWhile Char.isDigit) 0
  if negative then max (-n) (-2 ^ 63) else min n (2 ^ 63 - 1)

def atoi (s : List Char) : Int := (Int32.ofInt (strtol s)).toInt

def atoll (s : List Char) : Int := strtol s

/-- The digits before and behind a point, and the rest. -/
def scanDigits (digit : Char → Bool) (s : List Char) :
    List Char × List Char × List Char :=
  match s.dropWhile digit with
  | '.' :: rest =>
      (s.takeWhile digit, rest.takeWhile digit, rest.dropWhile digit)
  | rest => (s.takeWhile digit, [], rest)

/-- An exponent, and whether it breaks off. -/
def scanExponent (mark : Char) : List Char → Int × Bool
  | c :: s =>
      if c = mark then
        let (negative, s) := scanSign s
        let digits := s.takeWhile Char.isDigit
        let n := Nat.ofDigitChars 10 digits 0
        (if negative then -n else n, digits.isEmpty)
      else (0, false)
  | [] => (0, false)

def isHexDigit (c : Char) : Bool := c.isDigit || ('a' ≤ c && c ≤ 'f')

def hexValue (digits : List Char) : Nat :=
  digits.foldl (fun n c => 16 * n +
    if c.isDigit then c.toNat - 48 else c.toNat - 87) 0

def isWordChar (c : Char) : Bool := c.isAlphanum || c = '_'

/-- The value of the number that a text in lower case begins with, and whether
the text goes on like a longer number but breaks off. -/
def scanMagnitude : List Char → Option (Double × Bool)
  | 'i' :: 'n' :: 'f' :: s =>
      some (.inf false, s.head? = some 'i' && !"inity".toList.isPrefixOf s)
  | 'n' :: 'a' :: 'n' :: s =>
      some (.nan, s.head? = some '(' &&
        ((s.drop 1).dropWhile isWordChar).head? ≠ some ')')
  | '0' :: 'x' :: s =>
      let (whole, frac, rest) := scanDigits isHexDigit s
      let (exponent, cut) := scanExponent 'p' rest
      if (whole ++ frac).isEmpty then some (.num 0, true)
      else some (.ofRat (hexValue (whole ++ frac) *
        2 ^ (exponent - 4 * frac.length)), cut)
  | s =>
      let (whole, frac, rest) := scanDigits Char.isDigit s
      let (exponent, cut) := scanExponent 'e' rest
      if (whole ++ frac).isEmpty then none
      else some (.ofRat (Nat.ofDigitChars 10 (whole ++ frac) 0 *
        10 ^ (exponent - frac.length)), cut)

def scanDouble (s : List Char) : Option (Double × Bool) :=
  let (negative, s) := scanSign s
  (scanMagnitude (s.map Char.toLower)).map fun (v, cut) =>
    (if negative then v.neg else v, cut)

/-- `atof`: the number that the text begins with. -/
def atof (s : List Char) : Double :=
  ((scanDouble (skipSpace s)).map Prod.fst).getD (.num 0)

/-- `%20lf`: the input ends where it cannot be part of a number any more, and
has to be a number. -/
def scanLf (s : List Char) : Option Double :=
  match scanDouble ((skipSpace s).take 20) with
  | some (v, false) => some v
  | _ => none

/-- `%20hu`, which keeps the low 16 bits of an `unsigned long`. -/
def scanHu (s : List Char) : Option UInt16 :=
  let (negative, s) := scanSign ((skipSpace s).take 20)
  let digits := s.takeWhile Char.isDigit
  let n := min (Nat.ofDigitChars 10 digits 0) (2 ^ 64 - 1)
  if digits.isEmpty then none else some (.ofInt (if negative then -n else n))

/-- `%256[^:]:%20hu`. -/
def scanAddr (s : List Char) : Option (List Char × UInt16) :=
  let addr := (s.take 256).takeWhile (· ≠ ':')
  match addr, s.drop addr.length with
  | _ :: _, ':' :: rest => (scanHu rest).map fun port => (addr, port)
  | _, _ => none

/-! ## `getopt` -/

/-- An option, and its argument if it takes one. -/
abbrev Opt := Char × List Char

/-- What `getopt` returns for an option that it does not know, or that misses
its argument. -/
def badOpt : Opt := ('?', [])

/-- The options of one argument, and the one that waits for the next argument.
`flags` take no argument, `valued` take one. -/
def cluster (flags valued : List Char) : List Char → List Opt × Option Char
  | [] => ([], none)
  | c :: cs =>
      if c ∈ valued then
        if cs.isEmpty then ([], some c) else ([(c, cs)], none)
      else
        let (opts, waits) := cluster flags valued cs
        ((if c ∈ flags then (c, []) else badOpt) :: opts, waits)

/-- `getopt`, which moves the arguments that are no options behind those that
are. -/
def getopt (flags valued : List Char) :
    Option Char → List (List Char) → List Opt × List (List Char)
  | none, [] => ([], [])
  | some _, [] => ([badOpt], [])
  | some c, arg :: args =>
      let (opts, rest) := getopt flags valued none args
      ((c, arg) :: opts, rest)
  | none, ['-', '-'] :: args => ([], args)
  | none, ('-' :: c :: cs) :: args =>
      let (opts, waits) := cluster flags valued (c :: cs)
      let (opts', rest) := getopt flags valued waits args
      (opts ++ opts', rest)
  | none, arg :: args =>
      let (opts, rest) := getopt flags valued none args
      (opts, arg :: rest)

/-! ## The parsers -/

/-- Why a parser does not return. -/
inductive Halt
  | exit (success : Bool)
  | undefinedBehaviour (what : String)
  deriving DecidableEq, Repr

/-- `__printUsage`. -/
def printUsage {α : Type} (success : Bool) : Except Halt α :=
  .error (.exit success)

/-- `-m`. -/
def connModeOf (optarg : List Char) : Option ConnMode :=
  if optarg = "per_request".toList then some .perRequest
  else if optarg = "round_robin".toList then some .roundRobin
  else if optarg = "random".toList then some .random
  else none

/-- `-d`. -/
def serviceDistOf (optarg : List Char) : Option ServiceDist :=
  if optarg = "fixed".toList then some .fixed
  else if optarg = "exp".toList then some .exponential
  else if optarg = "lognorm".toList then some .logNormal
  else none

/-- The options of both parsers. -/
def commonOption (cfg : Config) : Opt → Except Halt Config
  | ('h', _) => printUsage true
  | ('r', _) => .ok { cfg with machineReadable := true }
  | ('e', _) => .ok { cfg with useEpollSpin := true }
  | ('b', _) => .ok { cfg with useBusyTimer := true }
  | ('i', optarg) => .ok { cfg with saveIatimes := some optarg }
  | ('w', optarg) => .ok { cfg with warmupSeconds := .ofInt (atoi optarg) }
  | ('s', optarg) => .ok { cfg with samples := .ofInt (atoi optarg) }
  | ('c', optarg) => .ok { cfg with cooldownSeconds := .ofInt (atoi optarg) }
  | ('W', optarg) => .ok { cfg with missedWindowUs := .ofInt (atoll optarg) }
  | ('l', optarg) => .ok { cfg with label := optarg }
  | ('m', optarg) =>
      match connModeOf optarg with
      | some connMode => .ok { cfg with connMode := connMode }
      | none => printUsage false
  | ('d', optarg) =>
      match serviceDistOf optarg with
      | some serviceDist => .ok { cfg with serviceDist := serviceDist }
      | none => printUsage false
  | ('n', optarg) => .ok { cfg with connCnt := .ofInt (atoi optarg) }
  | _ => printUsage false

/-- The options of `parse_synthetic`. -/
def syntheticOption (cfg : Config) : Opt → Except Halt Config
  | ('z', _) => .ok { cfg with sendOnly := true }
  | opt => commonOption cfg opt

/-- The options of `parse_memcache`. -/
def memcacheOption (cfg : Config) : Opt → Except Halt Config
  | ('z', optarg) => .ok { cfg with records := .ofInt (atoll optarg) }
  | ('k', optarg) => .ok { cfg with keysize := .ofInt (atoll optarg) }
  | ('v', optarg) => .ok { cfg with valsize := .ofInt (atoll optarg) }
  | ('u', optarg) => .ok { cfg with setget := atof optarg }
  | opt => commonOption cfg opt

/-- The result of a `sscanf` that has to convert everything. -/
def scanned {α : Type} : Option α → Except Halt α
  | some a => .ok a
  | none => printUsage false

/-- `DEFAULT_SAMPLE_S`. -/
def defaultSampleS : UInt64 := 10

/-- convert from sample seconds to sample count -/
def scaleSamples (cfg : Config) : Except Halt Config :=
  let seconds := if cfg.samples = 0 then defaultSampleS else cfg.samples
  match ((Double.ofRat seconds.toNat).mul cfg.reqS).toUInt64 with
  | some samples => .ok { cfg with samples := samples }
  | none => .error (.undefinedBehaviour "samples: not a uint64_t")

def parseSynthetic (argv : List (List Char)) : Except Halt Config := do
  let (opts, args) := getopt "hrebz".toList "iwscWlmdn".toList none argv
  let cfg ← opts.foldlM syntheticOption { protocol := .synthetic }
  match args with
  | host :: service :: rate :: _ => do
      let (addr, port) ← scanned (scanAddr host)
      let serviceUs ← scanned (scanLf service)
      let reqS ← scanned (scanLf rate)
      scaleSamples { cfg with
        addr := addr, port := port, serviceUs := serviceUs, reqS := reqS }
  | _ => printUsage false

def parseMemcache (argv : List (List Char)) : Except Halt Config := do
  let (opts, args) := getopt "hreb".toList "iwscWlmdnzkvu".toList none argv
  let cfg ← opts.foldlM memcacheOption
    { protocol := .memcache, serviceUs := .num 0 }
  match args with
  | host :: rate :: _ => do
      let (addr, port) ← scanned (scanAddr host)
      let reqS ← scanned (scanLf rate)
      scaleSamples { cfg with addr := addr, port := port, reqS := reqS }
  | _ => printUsage false

end Mutated.Ports
