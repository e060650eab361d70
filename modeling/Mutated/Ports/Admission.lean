import Mutated.Ports.CommandLine
import Mutated.Verified.Exec

/-!
# Which command lines are safe

The client relies on its options: the host ends inside `addr`, a pooled
connection can be chosen, a memcache key can be chosen, and there is a sample
to print.  The parsers convert every argument by itself and test none of this.

* `lastOpt` is the argument of the last option with a letter, which is the one
  that counts.
* `Safe` is what the client relies on, and `Proper` says it of the command
  line.

## Main results

`admitted_iff` says that a parser that returns has made a safe `Config`
exactly of a proper command line.
-/

namespace Mutated.Ports

open Mutated.Verified.Exec

/-! ## The two parsers as one -/

def parseArgv : Protocol → List (List Char) → Except Halt Config
  | .synthetic => parseSynthetic
  | .memcache => parseMemcache

/-- What `getopt` makes of the command line. -/
def scanArgs : Protocol → List (List Char) → List Opt × List (List Char)
  | .synthetic => getopt "hrebz".toList "iwscWlmdn".toList none
  | .memcache => getopt "hreb".toList "iwscWlmdnzkvu".toList none

def applyOption : Protocol → Config → Opt → Except Halt Config
  | .synthetic => syntheticOption
  | .memcache => memcacheOption

/-- Where the rate stands among the fixed arguments. -/
def rateIndex : Protocol → Nat
  | .synthetic => 2
  | .memcache => 1

/-- The argument of the last option `c`. -/
def lastOpt (c : Char) (opts : List Opt) : Option (List Char) :=
  (opts.reverse.find? fun o => o.1 = c).map Prod.snd

/-! ## What an option does -/

/-- **One option**, as far as the client relies on it. -/
structure OptionEffect (p : Protocol) (o : Opt) (cfg cfg' : Config) : Prop where
  protocol : cfg'.protocol = cfg.protocol
  machineReadable : cfg'.machineReadable =
    if o.1 = 'r' then true else cfg.machineReadable
  samples : cfg'.samples =
    if o.1 = 's' then .ofInt (atoi o.2) else cfg.samples
  connMode : cfg'.connMode =
    if o.1 = 'm' then (connModeOf o.2).getD .roundRobin else cfg.connMode
  connCnt : cfg'.connCnt =
    if o.1 = 'n' then .ofInt (atoi o.2) else cfg.connCnt
  records : p = .memcache → cfg'.records =
    if o.1 = 'z' then .ofInt (atoll o.2) else cfg.records

/-- An option is applied, or the program exits. -/
def OptionSpec (p : Protocol) (o : Opt) (cfg : Config) :
    Except Halt Config → Prop
  | .ok cfg' => OptionEffect p o cfg cfg'
  | .error halt => ∃ success, halt = .exit success

theorem commonOption_spec (p : Protocol) (cfg : Config) (o : Opt) :
    OptionSpec p o cfg (commonOption cfg o) := by
  unfold commonOption
  split
  -- the mode and the distribution may be refused
  case h_11 optarg =>
      cases hmode : connModeOf optarg with
      | none => exact ⟨false, rfl⟩
      | some mode => constructor <;> simp [hmode]
  case h_12 optarg =>
      cases hdist : serviceDistOf optarg with
      | none => exact ⟨false, rfl⟩
      | some dist => constructor <;> simp
  case h_1 => exact ⟨true, rfl⟩
  case h_14 => exact ⟨false, rfl⟩
  all_goals constructor <;> simp

theorem applyOption_spec (p : Protocol) (cfg : Config) (o : Opt) :
    OptionSpec p o cfg (applyOption p cfg o) := by
  cases p with
  | synthetic =>
      show OptionSpec _ o cfg (syntheticOption cfg o)
      unfold syntheticOption
      split
      · exact ⟨rfl, rfl, rfl, rfl, rfl, fun hp => by cases hp⟩
      · exact commonOption_spec _ cfg _
  | memcache =>
      show OptionSpec _ o cfg (memcacheOption cfg o)
      unfold memcacheOption
      split
      case h_5 => exact commonOption_spec _ cfg _
      all_goals constructor <;> simp

/-! ## What all options do -/

theorem lastOpt_cons (c : Char) (o : Opt) (opts : List Opt) :
    lastOpt c (o :: opts) =
      (lastOpt c opts).or (if o.1 = c then some o.2 else none) := by
  unfold lastOpt
  rw [List.reverse_cons, List.find?_append]
  cases hfind : opts.reverse.find? fun o => decide (o.1 = c) with
  | some o' => rfl
  | none =>
      by_cases hc : o.1 = c
      · simp [hc]
      · simp [hc]

/-- The last option with a letter is what a field that is set by it alone
comes to. -/
theorem foldl_lastOpt {β : Type} {c : Char} {value : List Char → β}
    (opts : List Opt) : ∀ v : β,
    opts.foldl (fun v o => if o.1 = c then value o.2 else v) v =
      ((lastOpt c opts).map value).getD v := by
  induction opts with
  | nil => exact fun _ => rfl
  | cons o opts ih =>
      intro v
      rw [List.foldl_cons, ih, lastOpt_cons]
      cases lastOpt c opts with
      | some arg => rfl
      | none =>
          by_cases hc : o.1 = c
          · simp [hc]
          · simp [hc]

/-- **A field is folded** as the options are, if each option says what becomes
of it. -/
theorem foldlM_field {β : Type} {option : Config → Opt → Except Halt Config}
    (field : Config → β) {update : β → Opt → β}
    (hone : ∀ cfg o cfg', option cfg o = .ok cfg' →
      field cfg' = update (field cfg) o)
    {opts : List Opt} : ∀ {cfg cfg' : Config},
    opts.foldlM option cfg = .ok cfg' →
    field cfg' = opts.foldl update (field cfg) := by
  induction opts with
  | nil =>
      intro cfg cfg' h
      cases h
      rfl
  | cons o opts ih =>
      intro cfg cfg' h
      rw [List.foldlM_cons] at h
      obtain ⟨cfg₁, hfirst, hrest⟩ := except_bind_eq_ok.mp h
      rw [ih hrest, hone _ _ _ hfirst, List.foldl_cons]

/-- **The last option with a letter counts.** -/
theorem foldlM_last {β : Type} {option : Config → Opt → Except Halt Config}
    (field : Config → β) {c : Char} {value : List Char → β}
    (hone : ∀ cfg o cfg', option cfg o = .ok cfg' →
      field cfg' = if o.1 = c then value o.2 else field cfg)
    {opts : List Opt} {cfg cfg' : Config}
    (h : opts.foldlM option cfg = .ok cfg') :
    field cfg' = ((lastOpt c opts).map value).getD (field cfg) :=
  (foldlM_field field hone h).trans (foldl_lastOpt opts _)

theorem foldlM_exits {p : Protocol} {halt : Halt} {opts : List Opt} :
    ∀ {cfg : Config}, opts.foldlM (applyOption p) cfg = .error halt →
    ∃ success, halt = .exit success := by
  induction opts with
  | nil =>
      intro cfg h
      cases h
  | cons o opts ih =>
      intro cfg h
      rw [List.foldlM_cons] at h
      have hspec := applyOption_spec p cfg o
      cases hfirst : applyOption p cfg o with
      | error halt' =>
          rw [hfirst] at h hspec
          cases h
          exact hspec
      | ok cfg₁ =>
          rw [hfirst] at h
          exact ih h

theorem applyOption_effect {p : Protocol} {cfg cfg' : Config} {o : Opt}
    (h : applyOption p cfg o = .ok cfg') : OptionEffect p o cfg cfg' := by
  have hspec := applyOption_spec p cfg o
  rwa [h] at hspec

/-- **All options**, as far as the client relies on them. -/
structure Applied (p : Protocol) (opts : List Opt) (cfg : Config) : Prop where
  protocol : cfg.protocol = p
  machineReadable : cfg.machineReadable =
    ((lastOpt 'r' opts).map fun _ => true).getD false
  samples : cfg.samples =
    ((lastOpt 's' opts).map fun arg => .ofInt (atoi arg)).getD 0
  connMode : cfg.connMode =
    ((lastOpt 'm' opts).map fun arg =>
      (connModeOf arg).getD .roundRobin).getD .roundRobin
  connCnt : cfg.connCnt =
    ((lastOpt 'n' opts).map fun arg => .ofInt (atoi arg)).getD 10
  records : p = .memcache → cfg.records =
    ((lastOpt 'z' opts).map fun arg => .ofInt (atoll arg)).getD 10000

theorem Applied.of_eq {p : Protocol} {opts : List Opt} {cfg cfg' : Config}
    (h : Applied p opts cfg) (hprotocol : cfg'.protocol = cfg.protocol)
    (hreadable : cfg'.machineReadable = cfg.machineReadable)
    (hsamples : cfg'.samples = cfg.samples)
    (hmode : cfg'.connMode = cfg.connMode)
    (hcnt : cfg'.connCnt = cfg.connCnt)
    (hrecords : cfg'.records = cfg.records) : Applied p opts cfg' :=
  ⟨hprotocol.trans h.protocol, hreadable.trans h.machineReadable,
    hsamples.trans h.samples, hmode.trans h.connMode,
    hcnt.trans h.connCnt, fun hp => hrecords.trans (h.records hp)⟩

theorem foldlM_applied {p : Protocol} {opts : List Opt} {cfg : Config}
    {service : Double}
    (h : opts.foldlM (applyOption p)
      { protocol := p, serviceUs := service } = .ok cfg) :
    Applied p opts cfg where
  protocol := (foldlM_field Config.protocol
    (fun _ _ _ hone => (applyOption_effect hone).protocol) h).trans
      (List.foldl_fixed opts)
  machineReadable := foldlM_last Config.machineReadable (c := 'r')
    (fun _ _ _ hone => (applyOption_effect hone).machineReadable) h
  samples := foldlM_last Config.samples (c := 's')
    (fun _ _ _ hone => (applyOption_effect hone).samples) h
  connMode := foldlM_last Config.connMode (c := 'm')
    (fun _ _ _ hone => (applyOption_effect hone).connMode) h
  connCnt := foldlM_last Config.connCnt (c := 'n')
    (fun _ _ _ hone => (applyOption_effect hone).connCnt) h
  records := by
    rintro rfl
    exact foldlM_last Config.records (c := 'z')
      (fun _ _ _ hone => (applyOption_effect hone).records rfl) h

/-! ## What the client relies on -/

/-- The conversion of `conn_cnt` to `int`. -/
def Config.connInt (cfg : Config) : Int := cfg.connCnt.toUInt32.toInt32.toInt

/-- **What the client relies on.** -/
structure Safe (cfg : Config) : Prop where
  /-- The text and its terminator fit in `addr`. -/
  addr : cfg.addr.length + 1 ≤ 256
  /-- `idx % conns_.size()` and `conn_dist_` are defined. -/
  conns : cfg.connMode ≠ .perRequest →
    0 < cfg.connCnt.toNat ∧ 0 ≤ cfg.connInt - 1
  /-- `id % records` is defined. -/
  records : cfg.protocol = .memcache → 0 < cfg.records.toNat
  /-- There is a smallest sample. -/
  samples : 0 < cfg.samples.toNat

instance (cfg : Config) : Decidable (Safe cfg) :=
  decidable_of_iff
    (cfg.addr.length + 1 ≤ 256 ∧
      (cfg.connMode ≠ .perRequest →
        0 < cfg.connCnt.toNat ∧ 0 ≤ cfg.connInt - 1) ∧
      (cfg.protocol = .memcache → 0 < cfg.records.toNat) ∧
      0 < cfg.samples.toNat)
    ⟨fun ⟨haddr, hconns, hrecords, hsamples⟩ =>
        ⟨haddr, hconns, hrecords, hsamples⟩,
      fun h => ⟨h.addr, h.conns, h.records, h.samples⟩⟩

/-- The parser returns a safe `Config`. -/
def Admitted (r : Except Halt Config) : Prop := ∃ cfg, r = .ok cfg ∧ Safe cfg

/-- The seconds of measurement that the options ask for. -/
def sampleSeconds (opts : List Opt) : UInt64 :=
  let seconds : UInt64 := ((lastOpt 's' opts).map fun arg =>
    .ofInt (atoi arg)).getD 0
  if seconds = 0 then defaultSampleS else seconds

/-- **What that asks of the command line**: a host of at most 255 characters,
connections if they are pooled, memcache records, and a time that makes at
least one sample at the rate. -/
structure Proper (p : Protocol) (argv : List (List Char)) : Prop where
  host : ∀ arg ∈ (scanArgs p argv).2.head?,
    (arg.takeWhile (· ≠ ':')).length ≤ 255
  conns : ((lastOpt 'm' (scanArgs p argv).1).bind connModeOf =
      some .perRequest) ∨
    1 ≤ ((lastOpt 'n' (scanArgs p argv).1).map atoi).getD 10
  records : p = .memcache →
    ((lastOpt 'z' (scanArgs p argv).1).map atoll).getD 10000 ≠ 0
  samples : ∃ q, ((scanArgs p argv).2[rateIndex p]?.bind scanLf).map
      (Double.ofRat (sampleSeconds (scanArgs p argv).1).toNat).mul =
        some (.num q) ∧ 1 ≤ q ∧ q < 2 ^ 64

/-! ## What a parser returns -/

/-- A returned `Config` that is found by running the parser. -/
theorem parseArgv_any (p : Protocol) (argv : List (List Char))
    {Q : Config → Prop} [DecidablePred Q]
    (h : (parseArgv p argv).toOption.any (decide <| Q ·)) :
    ∃ cfg, parseArgv p argv = .ok cfg ∧ Q cfg := by
  cases hparse : parseArgv p argv with
  | error halt =>
      rw [hparse] at h
      cases h
  | ok cfg =>
      rw [hparse] at h
      exact ⟨cfg, rfl, of_decide_eq_true h⟩

theorem scanned_returns {α : Type} {x : Option α} {β : Type}
    {f : α → Except Halt β}
    (hret : ∀ success, (scanned x >>= f) ≠ .error (.exit success)) :
    ∃ a, x = some a ∧ (scanned x >>= f) = f a := by
  cases x with
  | none => exact absurd rfl (hret false)
  | some a => exact ⟨a, rfl, rfl⟩

/-- The options of a parser that does not exit. -/
theorem options_return {p : Protocol} {opts : List Opt} {start : Config}
    {β : Type} {f : Config → Except Halt β}
    (hret : ∀ success, (opts.foldlM (applyOption p) start >>= f) ≠
      .error (.exit success)) :
    ∃ cfg, opts.foldlM (applyOption p) start = .ok cfg ∧
      (opts.foldlM (applyOption p) start >>= f) = f cfg := by
  cases hfold : opts.foldlM (applyOption p) start with
  | error halt =>
      obtain ⟨success, rfl⟩ := foldlM_exits hfold
      rw [hfold] at hret
      exact absurd rfl (hret success)
  | ok cfg => exact ⟨cfg, rfl, rfl⟩

/-- **A parser that does not exit** scales the samples at the end. -/
structure Parsed (p : Protocol) (argv : List (List Char)) (cfg : Config)
    (host rate : List Char) : Prop where
  hostArg : (scanArgs p argv).2.head? = some host
  rateArg : (scanArgs p argv).2[rateIndex p]? = some rate
  addr : ∃ port, scanAddr host = some (cfg.addr, port)
  reqS : scanLf rate = some cfg.reqS
  applied : Applied p (scanArgs p argv).1 cfg
  scaled : parseArgv p argv = scaleSamples cfg

/-- The fixed arguments of `mutated_synthetic`. -/
theorem parseArgv_synthetic {argv rest : List (List Char)}
    {host service rate : List Char}
    (hargs : (scanArgs .synthetic argv).2 = host :: service :: rate :: rest) :
    parseArgv .synthetic argv =
      ((scanArgs .synthetic argv).1.foldlM (applyOption .synthetic)
          { protocol := .synthetic } >>= fun cfg =>
        scanned (scanAddr host) >>= fun addr =>
        scanned (scanLf service) >>= fun serviceUs =>
        scanned (scanLf rate) >>= fun reqS =>
        scaleSamples { cfg with
          addr := addr.1, port := addr.2
          serviceUs := serviceUs, reqS := reqS }) := by
  rw [scanArgs] at hargs
  show parseSynthetic argv = _
  rw [parseSynthetic]
  dsimp only
  rw [hargs]
  rfl

/-- The fixed arguments of `mutated_memcache`. -/
theorem parseArgv_memcache {argv rest : List (List Char)}
    {host rate : List Char}
    (hargs : (scanArgs .memcache argv).2 = host :: rate :: rest) :
    parseArgv .memcache argv =
      ((scanArgs .memcache argv).1.foldlM (applyOption .memcache)
          { protocol := .memcache, serviceUs := .num 0 } >>= fun cfg =>
        scanned (scanAddr host) >>= fun addr =>
        scanned (scanLf rate) >>= fun reqS =>
        scaleSamples { cfg with
          addr := addr.1, port := addr.2, reqS := reqS }) := by
  rw [scanArgs] at hargs
  show parseMemcache argv = _
  rw [parseMemcache]
  dsimp only
  rw [hargs]
  rfl

/-- A parser that prints its usage exits, if an option has not done so. -/
theorem usage_exits (p : Protocol) (opts : List Opt) (start : Config) :
    ∃ success, (opts.foldlM (applyOption p) start >>= fun _ =>
      (printUsage false : Except Halt Config)) = .error (.exit success) := by
  cases hfold : opts.foldlM (applyOption p) start with
  | error halt =>
      obtain ⟨success, rfl⟩ := foldlM_exits hfold
      exact ⟨success, rfl⟩
  | ok cfg => exact ⟨false, rfl⟩

/-- With too few fixed arguments a parser prints its usage. -/
theorem parseArgv_usage {p : Protocol} {argv : List (List Char)}
    (hfew : (scanArgs p argv).2.length ≤ rateIndex p) :
    ∃ success, parseArgv p argv = .error (.exit success) := by
  cases p with
  | synthetic =>
      have husage : parseArgv .synthetic argv =
          ((scanArgs .synthetic argv).1.foldlM (applyOption .synthetic)
            { protocol := .synthetic } >>= fun _ => printUsage false) := by
        show parseSynthetic argv = _
        rw [parseSynthetic]
        dsimp only
        rw [scanArgs] at hfew ⊢
        rcases hargs : (getopt _ _ none argv).2 with
          _ | ⟨host, _ | ⟨service, _ | ⟨rate, rest⟩⟩⟩
        case cons.cons.cons =>
            rw [hargs] at hfew
            exact absurd hfew (Nat.not_le.mpr (Nat.le_add_left 3 rest.length))
        all_goals rfl
      rw [husage]
      exact usage_exits _ _ _
  | memcache =>
      have husage : parseArgv .memcache argv =
          ((scanArgs .memcache argv).1.foldlM (applyOption .memcache)
            { protocol := .memcache, serviceUs := .num 0 } >>= fun _ =>
              printUsage false) := by
        show parseMemcache argv = _
        rw [parseMemcache]
        dsimp only
        rw [scanArgs] at hfew ⊢
        rcases hargs : (getopt _ _ none argv).2 with
          _ | ⟨host, _ | ⟨rate, rest⟩⟩
        case cons.cons =>
            rw [hargs] at hfew
            exact absurd hfew (Nat.not_le.mpr (Nat.le_add_left 2 rest.length))
        all_goals rfl
      rw [husage]
      exact usage_exits _ _ _

theorem parse_returns {p : Protocol} {argv : List (List Char)}
    (hret : ∀ success, parseArgv p argv ≠ .error (.exit success)) :
    ∃ cfg host rate, Parsed p argv cfg host rate := by
  have hmany : rateIndex p < (scanArgs p argv).2.length := by
    by_contra hfew
    obtain ⟨success, hexit⟩ := parseArgv_usage (Nat.not_lt.mp hfew)
    exact hret success hexit
  cases p with
  | synthetic =>
      obtain ⟨host, service, rate, rest, hargs⟩ : ∃ host service rate rest,
          (scanArgs .synthetic argv).2 = host :: service :: rate :: rest := by
        rcases hargs : (scanArgs .synthetic argv).2 with
          _ | ⟨host, _ | ⟨service, _ | ⟨rate, rest⟩⟩⟩
        case cons.cons.cons => exact ⟨host, service, rate, rest, rfl⟩
        all_goals
          rw [hargs] at hmany
          simp [rateIndex] at hmany
      have hparse := parseArgv_synthetic hargs
      rw [hparse] at hret
      obtain ⟨cfg₀, hfold, hopts⟩ := options_return hret
      rw [hopts] at hparse hret
      obtain ⟨addr, haddr, h₁⟩ := scanned_returns hret
      rw [h₁] at hparse hret
      obtain ⟨serviceUs, hservice, h₂⟩ := scanned_returns hret
      rw [h₂] at hparse hret
      obtain ⟨reqS, hrate, h₃⟩ := scanned_returns hret
      rw [h₃] at hparse
      exact ⟨{ cfg₀ with
          addr := addr.1, port := addr.2
          serviceUs := serviceUs, reqS := reqS },
        host, rate, by rw [hargs]; rfl, by rw [hargs]; rfl, ⟨addr.2, haddr⟩,
        hrate, .of_eq (foldlM_applied hfold) rfl rfl rfl rfl rfl rfl, hparse⟩
  | memcache =>
      obtain ⟨host, rate, rest, hargs⟩ : ∃ host rate rest,
          (scanArgs .memcache argv).2 = host :: rate :: rest := by
        rcases hargs : (scanArgs .memcache argv).2 with
          _ | ⟨host, _ | ⟨rate, rest⟩⟩
        case cons.cons => exact ⟨host, rate, rest, rfl⟩
        all_goals
          rw [hargs] at hmany
          simp [rateIndex] at hmany
      have hparse := parseArgv_memcache hargs
      rw [hparse] at hret
      obtain ⟨cfg₀, hfold, hopts⟩ := options_return hret
      rw [hopts] at hparse hret
      obtain ⟨addr, haddr, h₁⟩ := scanned_returns hret
      rw [h₁] at hparse hret
      obtain ⟨reqS, hrate, h₂⟩ := scanned_returns hret
      rw [h₂] at hparse
      exact ⟨{ cfg₀ with addr := addr.1, port := addr.2, reqS := reqS },
        host, rate, by rw [hargs]; rfl, by rw [hargs]; rfl, ⟨addr.2, haddr⟩,
        hrate, .of_eq (foldlM_applied hfold) rfl rfl rfl rfl rfl rfl, hparse⟩

/-! ## The conversions -/

/-- The host that is stored ends before the first colon. -/
theorem scanAddr_host {s addr : List Char} {port : UInt16}
    (h : scanAddr s = some (addr, port)) : s.takeWhile (· ≠ ':') = addr := by
  unfold scanAddr at h
  dsimp only at h
  split at h
  case h_2 => cases h
  case h_1 hhost hcolon =>
      obtain ⟨port', -, heq⟩ := Option.map_eq_some_iff.mp h
      obtain ⟨rfl, -⟩ := Prod.ext_iff.mp heq
      have hprefix : (s.take 256).takeWhile (· ≠ ':') <+: s :=
        (List.takeWhile_prefix _).trans (List.take_prefix 256 s)
      have hsplit := List.prefix_iff_eq_append.mp hprefix
      rw [hcolon] at hsplit
      conv_lhs => rw [← hsplit]
      rw [List.takeWhile_append_of_pos
        (List.all_eq_true.mp List.all_takeWhile)]
      simp

theorem toNat_ofInt (z : Int) :
    (UInt64.ofInt z).toNat = (z % 2 ^ 64).toNat := by
  rw [UInt64.ofInt, UInt64.toNat_ofNat']
  omega

theorem connInt_ofInt (n : Int32) :
    (UInt64.ofInt n.toInt).toUInt32.toInt32.toInt = n.toInt := by
  have hlow := n.minValue_le_toInt
  have hhigh := n.toInt_lt
  have hmin : Int32.minValue.toInt = -2147483648 := rfl
  show (UInt64.ofInt n.toInt).toUInt32.toBitVec.toInt = _
  rw [BitVec.toInt_eq_toNat_bmod]
  show Int.bmod (UInt64.ofInt n.toInt).toUInt32.toNat _ = _
  rw [UInt64.toNat_toUInt32, toNat_ofInt]
  simp only [Int.bmod]
  omega

theorem natAbs_atoll_lt (s : List Char) : (atoll s).natAbs < 2 ^ 64 := by
  unfold atoll strtol
  simp only
  split <;> omega

theorem one_le_truncate_iff (q : ℚ) : 1 ≤ Double.truncate q ↔ 1 ≤ q := by
  unfold Double.truncate
  by_cases hq : q < 0
  · have hceil : ⌈q⌉ ≤ 0 := Int.ceil_le.mpr (by exact_mod_cast hq.le)
    rw [if_pos hq]
    exact iff_of_false (by omega) (by linarith)
  · rw [if_neg hq, Int.le_floor]
    norm_num

/-- The conversion keeps what is left without the fraction. -/
theorem toUInt64_eq_some_iff {v : Double} {n : UInt64} :
    v.toUInt64 = some n ↔
      ∃ q, v = .num q ∧ (n.toNat : Int) = Double.truncate q := by
  constructor
  · intro h
    cases v with
    | inf negative => cases h
    | nan => cases h
    | num q =>
        by_cases hrange : 0 ≤ Double.truncate q ∧ Double.truncate q < 2 ^ 64
        · rw [Double.toUInt64, if_pos hrange] at h
          cases h
          refine ⟨q, rfl, ?_⟩
          rw [UInt64.toNat_ofNat']
          omega
        · rw [Double.toUInt64, if_neg hrange] at h
          cases h
  · rintro ⟨q, rfl, hn⟩
    have hlt := n.toNat_lt
    rw [Double.toUInt64, ← hn, if_pos (by omega), Int.toNat_natCast,
      UInt64.ofNat_toNat]

theorem toUInt64_pos_iff {v : Double} :
    (∃ n, v.toUInt64 = some n ∧ 0 < n.toNat) ↔
      ∃ q, v = .num q ∧ 1 ≤ q ∧ q < 2 ^ 64 := by
  simp only [toUInt64_eq_some_iff]
  constructor
  · rintro ⟨n, ⟨q, hv, hn⟩, hpos⟩
    have hone := (one_le_truncate_iff q).mp (by omega)
    have htop : Double.truncate q < 2 ^ 64 := by
      have hlt := n.toNat_lt
      omega
    rw [Double.truncate, if_neg (by linarith), Int.floor_lt] at htop
    exact ⟨q, hv, hone, by exact_mod_cast htop⟩
  · rintro ⟨q, hv, hone, hlt⟩
    have hlow := (one_le_truncate_iff q).mpr hone
    have hhigh : Double.truncate q < 2 ^ 64 := by
      rw [Double.truncate, if_neg (by linarith), Int.floor_lt]
      exact_mod_cast hlt
    have hn : (UInt64.ofNat (Double.truncate q).toNat).toNat =
        (Double.truncate q).toNat := by
      rw [UInt64.toNat_ofNat']
      omega
    exact ⟨.ofNat (Double.truncate q).toNat, ⟨q, hv, by omega⟩, by omega⟩

variable {p : Protocol} {opts : List Opt} {cfg : Config}

theorem Applied.conns_iff (h : Applied p opts cfg) :
    (cfg.connMode ≠ .perRequest →
        0 < cfg.connCnt.toNat ∧ 0 ≤ cfg.connInt - 1) ↔
      ((lastOpt 'm' opts).bind connModeOf = some .perRequest) ∨
        1 ≤ ((lastOpt 'n' opts).map atoi).getD 10 := by
  have hmode : cfg.connMode = .perRequest ↔
      (lastOpt 'm' opts).bind connModeOf = some .perRequest := by
    rw [h.connMode]
    cases lastOpt 'm' opts with
    | none => exact iff_of_false (by simp) (by simp)
    | some arg =>
        show (connModeOf arg).getD .roundRobin = .perRequest ↔
          connModeOf arg = some .perRequest
        cases connModeOf arg with
        | none => exact iff_of_false (by simp) (by simp)
        | some mode => exact Option.some_inj.symm
  have hcnt : (0 < cfg.connCnt.toNat ∧ 0 ≤ cfg.connInt - 1) ↔
      1 ≤ ((lastOpt 'n' opts).map atoi).getD 10 := by
    rw [Config.connInt, h.connCnt]
    cases lastOpt 'n' opts with
    | none => exact iff_of_true (by decide) (by decide)
    | some arg =>
        have hint := connInt_ofInt (Int32.ofInt (strtol arg))
        show 0 < (UInt64.ofInt (atoi arg)).toNat ∧
          0 ≤ (UInt64.ofInt (atoi arg)).toUInt32.toInt32.toInt - 1 ↔
            1 ≤ atoi arg
        rw [atoi, hint, toNat_ofInt]
        have hhigh := (Int32.ofInt (strtol arg)).toInt_lt
        omega
  rw [hcnt, ← hmode]
  tauto

theorem Applied.records_iff (h : Applied p opts cfg) :
    (cfg.protocol = .memcache → 0 < cfg.records.toNat) ↔
      (p = .memcache → ((lastOpt 'z' opts).map atoll).getD 10000 ≠ 0) := by
  rw [h.protocol]
  refine forall_congr' fun hp => ?_
  rw [h.records hp]
  cases lastOpt 'z' opts with
  | none => exact iff_of_true (by decide) (by decide)
  | some arg =>
      have hsmall := natAbs_atoll_lt arg
      show 0 < (UInt64.ofInt (atoll arg)).toNat ↔ atoll arg ≠ 0
      rw [toNat_ofInt]
      omega

/-- The samples of the `Config` that is returned. -/
theorem Parsed.seconds {argv : List (List Char)} {host rate : List Char}
    (h : Parsed p argv cfg host rate) :
    (if cfg.samples = 0 then defaultSampleS else cfg.samples) =
      sampleSeconds (scanArgs p argv).1 := by
  rw [h.applied.samples]
  rfl

/-! ## Main results -/

/-- The samples that are scaled, if they are a number. -/
theorem scaleSamples_ok {cfg' : Config} :
    scaleSamples cfg = .ok cfg' ↔ ∃ n,
      ((Double.ofRat (if cfg.samples = 0 then defaultSampleS
        else cfg.samples).toNat).mul cfg.reqS).toUInt64 = some n ∧
      cfg' = { cfg with samples := n } := by
  unfold scaleSamples
  dsimp only
  generalize ((Double.ofRat _).mul cfg.reqS).toUInt64 = scaled
  cases scaled with
  | none =>
      constructor
      · intro h
        cases h
      · rintro ⟨n, hn, -⟩
        cases hn
  | some n =>
      constructor
      · intro h
        cases h
        exact ⟨n, rfl, rfl⟩
      · rintro ⟨n', hn, rfl⟩
        cases hn
        rfl

/-- **A parser that returns** has made a safe `Config` exactly of a proper
command line. -/
theorem admitted_iff {argv : List (List Char)}
    (hret : ∀ success, parseArgv p argv ≠ .error (.exit success)) :
    Admitted (parseArgv p argv) ↔ Proper p argv := by
  obtain ⟨cfg, host, rate, h⟩ := parse_returns hret
  obtain ⟨port, haddr⟩ := h.addr
  have hhost : ∀ n, cfg.addr.length ≤ n ↔ ∀ arg ∈ (scanArgs p argv).2.head?,
      (arg.takeWhile (· ≠ ':')).length ≤ n := by
    intro n
    rw [h.hostArg, ← scanAddr_host haddr]
    exact ⟨fun hle arg harg => by cases harg; exact hle, fun hall => hall _ rfl⟩
  have hrate : (scanArgs p argv).2[rateIndex p]?.bind scanLf =
      some cfg.reqS := by
    rw [h.rateArg]
    exact h.reqS
  have hscaled : ∀ cfg', parseArgv p argv = .ok cfg' ↔ ∃ n,
      ((Double.ofRat (sampleSeconds (scanArgs p argv).1).toNat).mul
        cfg.reqS).toUInt64 = some n ∧ cfg' = { cfg with samples := n } := by
    intro cfg'
    rw [h.scaled, scaleSamples_ok, h.seconds]
  have hsamples : (∃ n,
      ((Double.ofRat (sampleSeconds (scanArgs p argv).1).toNat).mul
        cfg.reqS).toUInt64 = some n ∧ 0 < n.toNat) ↔
      ∃ q, ((scanArgs p argv).2[rateIndex p]?.bind scanLf).map
        (Double.ofRat (sampleSeconds (scanArgs p argv).1).toNat).mul =
          some (.num q) ∧ 1 ≤ q ∧ q < 2 ^ 64 := by
    rw [hrate, toUInt64_pos_iff]
    simp only [Option.map_some, Option.some_inj]
  constructor
  · rintro ⟨cfg', hok, hsafe⟩
    obtain ⟨n, hn, rfl⟩ := (hscaled cfg').mp hok
    exact ⟨(hhost 255).mp (Nat.le_of_succ_le_succ hsafe.addr),
      h.applied.conns_iff.mp hsafe.conns,
      h.applied.records_iff.mp hsafe.records,
      hsamples.mp ⟨n, hn, hsafe.samples⟩⟩
  · intro hproper
    obtain ⟨n, hn, hpos⟩ := hsamples.mpr hproper.samples
    exact ⟨_, (hscaled _).mpr ⟨n, hn, rfl⟩,
      Nat.succ_le_succ ((hhost 255).mpr hproper.host),
      h.applied.conns_iff.mpr hproper.conns,
      h.applied.records_iff.mpr hproper.records, hpos⟩

/-- A command line with a thousand requests a second is proper, one with a
hundredth of a request is not. -/
theorem admitted_iff_rates :
    Proper .memcache ["10.0.0.1:80".toList, "1000".toList] ∧
      ¬ Proper .memcache ["10.0.0.1:80".toList, "0.01".toList] := by
  constructor
  · obtain ⟨cfg, hok, hsafe⟩ := parseArgv_any .memcache
      ["10.0.0.1:80".toList, "1000".toList] (Q := Safe) (by decide +kernel)
    refine (admitted_iff fun success h => ?_).mp ⟨cfg, hok, hsafe⟩
    rw [hok] at h
    cases h
  · obtain ⟨cfg, hok, hunsafe⟩ := parseArgv_any .memcache
      ["10.0.0.1:80".toList, "0.01".toList] (Q := (¬ Safe ·))
      (by decide +kernel)
    refine fun hproper => hunsafe ?_
    obtain ⟨cfg', hok', hsafe⟩ := (admitted_iff fun success h => by
      rw [hok] at h
      cases h).mpr hproper
    rw [hok] at hok'
    cases hok'
    exact hsafe

/-- The parsers let four kinds of unsafe `Config` through: a host of 256
characters, no connection to choose from, no record, and no sample. -/
theorem not_admitted :
    (∃ cfg, parseArgv .synthetic [List.replicate 256 'a' ++ ":80".toList,
        "10".toList, "1000".toList] = .ok cfg ∧ ¬ Safe cfg) ∧
    (∃ cfg, parseArgv .synthetic ["-n".toList, "0".toList, "10.0.0.1:80".toList,
        "10".toList, "1000".toList] = .ok cfg ∧ ¬ Safe cfg) ∧
    (∃ cfg, parseArgv .memcache ["-z".toList, "0".toList, "10.0.0.1:80".toList,
        "1000".toList] = .ok cfg ∧ ¬ Safe cfg) ∧
    (∃ cfg, parseArgv .synthetic ["10.0.0.1:80".toList, "10".toList,
        "0.01".toList] = .ok cfg ∧ ¬ Safe cfg) := by
  refine ⟨parseArgv_any _ _ ?_, parseArgv_any _ _ ?_,
    parseArgv_any _ _ ?_, parseArgv_any _ _ ?_⟩ <;> decide +kernel

end Mutated.Ports
