import Mutated.Ports.CommandLineForms
import Mutated.Ports.CoordinatorParts
import Mutated.Ports.CoordinatorRuns
import Mutated.Ports.Doubles

/-!
# What the generators are told

`measureOne` prints its `cfg` into a command line, and the client that is
spawned there parses it: two programs in two languages that have to mean the
same.

## Main results

`spawn_parsed`: the client is configured as the coordinator means it, and
`measure_spawns`: the clients of a measurement are safe and make up the whole.
-/

namespace Mutated.Ports.Coord

open Mutated.Ports.Load
open Mutated.Verified.Shares

/-- **What a coordinator may ask for**: a host with a port, names that the
client knows, and numbers that it can hold. -/
structure Understood (c : Cfg) (addr : List Char) (port : UInt16)
    (mode : ConnMode) (dist : ServiceDist) : Prop where
  host : c.host = addr ++ ':' :: Nat.toDigits 10 port.toNat
  named : addr ≠ [] ∧ ':' ∉ addr ∧ addr.head? ≠ some '-'
  short : addr.length < 256
  mode : connModeOf c.mode = some mode
  dist : serviceDistOf c.dist = some dist
  timePad : c.timePad.toNat < 2 ^ 31
  conns : c.conns.toNat < 2 ^ 31
  samples : c.samples.toNat < 2 ^ 31
  serviceTime : c.serviceTime.toNat < 2 ^ 32
  total : c.samples.toNat * c.reqsPerSec.toNat < 2 ^ 53

/-- What the coordinator means. -/
def meant (addr : List Char) (port : UInt16) (mode : ConnMode)
    (dist : ServiceDist) (c : Cfg) : Config where
  protocol := .synthetic
  machineReadable := true
  useEpollSpin := true
  addr := addr
  port := port
  warmupSeconds := c.timePad
  cooldownSeconds := c.timePad
  samples := c.samples * c.reqsPerSec
  connMode := mode
  serviceDist := dist
  connCnt := c.conns
  serviceUs := .num c.serviceTime.toNat
  reqS := .num c.reqsPerSec.toNat

variable {c : Cfg} {addr : List Char} {port : UInt16} {mode : ConnMode}
  {dist : ServiceDist}

/-! ## The arguments one by one -/

/-- `atoi` of a number that an `int` can hold. -/
theorem atoi_decimal {n : UInt64} (hn : n.toNat < 2 ^ 31) :
    UInt64.ofInt (atoi (decimal n)) = n := by
  have hatoi : atoi (decimal n) = n.toNat := by
    rw [decimal, atoi_toDigits, Int32.toInt_ofInt_of_le (by omega) (by omega)]
    omega
  refine UInt64.toNat_inj.mp ?_
  rw [hatoi, toNat_ofInt]
  omega

theorem scanLf_decimal {n : UInt64} (hn : n.toNat < 2 ^ 53) :
    scanLf (decimal n) = some (.num n.toNat) := by
  rw [decimal, scanLf_toDigits (by omega), Double.ofRat_natCast hn]

/-- `%20hu` of a port. -/
theorem scanHu_toDigits (port : UInt16) :
    scanHu (Nat.toDigits 10 port.toNat) = some port := by
  have hlt := port.toNat_lt
  have hlength : (Nat.toDigits 10 port.toNat).length ≤ 20 :=
    (Nat.length_toDigits_le_iff (by decide) (by decide)).mpr (by omega)
  rw [scanHu, skipSpace_toDigits, List.take_of_length_le hlength,
    scanSign_toDigits]
  simp only [takeWhile_toDigits, Nat.ofDigitChars_ten_toDigits]
  rw [if_neg (by simp [Nat.toDigits_ne_nil]), Nat.min_eq_left (by omega)]
  refine congrArg some (UInt16.toNat_inj.mp ?_)
  show (UInt16.ofInt port.toNat).toNat = port.toNat
  rw [UInt16.ofInt, UInt16.toNat_ofNat']
  omega

/-- `%256[^:]:%20hu` of a host with a port. -/
theorem Understood.scanAddr (h : Understood c addr port mode dist) :
    scanAddr c.host = some (addr, port) := by
  obtain ⟨hne, hcolon, -⟩ := h.named
  have htake : (c.host.take 256).takeWhile (· ≠ ':') = addr := by
    rw [h.host, List.take_append,
      List.take_of_length_le (by have := h.short; omega),
      List.takeWhile_append_of_pos (fun ch hch => by
        simpa using fun heq : ch = ':' => hcolon (heq ▸ hch))]
    obtain ⟨k, hk⟩ : ∃ k, 256 - addr.length = k + 1 :=
      ⟨255 - addr.length, by have := h.short; omega⟩
    rw [hk, List.take_succ_cons, List.takeWhile_cons_of_neg (by simp),
      List.append_nil]
  rw [Mutated.Ports.scanAddr, htake, h.host, List.drop_left]
  cases addr with
  | nil => exact absurd rfl hne
  | cons ch rest =>
      show (scanHu (Nat.toDigits 10 port.toNat)).map _ = _
      rw [scanHu_toDigits]
      rfl

/-- None of the fixed arguments is taken for an option. -/
theorem Understood.scanArgs (h : Understood c addr port mode dist) :
    scanArgs .synthetic (spawnArgs c) =
      (spawnOpts c, [c.host, decimal c.serviceTime, decimal c.reqsPerSec]) := by
  have hhost : ∀ ch cs, c.host ≠ '-' :: ch :: cs := by
    intro ch cs heq
    obtain ⟨hne, -, hdash⟩ := h.named
    rw [h.host] at heq
    cases addr with
    | nil => exact hne rfl
    | cons first rest =>
        rw [List.cons_append] at heq
        exact hdash (congrArg some (List.cons.inj heq).1)
  have hnumber (n : UInt64) : ∀ ch cs, decimal n ≠ '-' :: ch :: cs := by
    intro ch cs heq
    have hmem : '-' ∈ Nat.toDigits 10 n.toNat := by
      rw [show Nat.toDigits 10 n.toNat = '-' :: ch :: cs from heq]
      exact List.mem_cons_self
    cases isDigit_of_mem hmem
  rw [scanArgs_spawnArgs, getopt_fixed hhost, getopt_fixed (hnumber _),
    getopt_fixed (hnumber _)]
  simp [getopt]

theorem foldlM_option {p : Protocol} {o : Opt} {opts : List Opt}
    {cfg cfg' : Config} (h : applyOption p cfg o = .ok cfg') :
    (o :: opts).foldlM (applyOption p) cfg =
      opts.foldlM (applyOption p) cfg' := by
  rw [List.foldlM_cons, h]
  rfl

/-- The options that set a number. -/
theorem applyOption_number (cfg : Config) {arg : List Char} {n : UInt64}
    (h : UInt64.ofInt (atoi arg) = n) :
    applyOption .synthetic cfg ('w', arg) =
        .ok { cfg with warmupSeconds := n } ∧
      applyOption .synthetic cfg ('c', arg) =
        .ok { cfg with cooldownSeconds := n } ∧
      applyOption .synthetic cfg ('s', arg) = .ok { cfg with samples := n } ∧
      applyOption .synthetic cfg ('n', arg) =
        .ok { cfg with connCnt := n } := by
  subst h
  exact ⟨rfl, rfl, rfl, rfl⟩

/-- What the options come to. -/
theorem Understood.options (h : Understood c addr port mode dist) :
    (spawnOpts c).foldlM (applyOption .synthetic) { protocol := .synthetic } =
      .ok { protocol := .synthetic, machineReadable := true
            useEpollSpin := true, warmupSeconds := c.timePad
            cooldownSeconds := c.timePad, samples := c.samples
            connMode := mode, serviceDist := dist, connCnt := c.conns } := by
  have hpad := atoi_decimal h.timePad
  have hsamples := atoi_decimal h.samples
  have hconns := atoi_decimal h.conns
  have hmode (cfg : Config) : applyOption .synthetic cfg ('m', c.mode) =
      .ok { cfg with connMode := mode } := by
    show commonOption cfg ('m', c.mode) = _
    rw [commonOption, h.mode]
  have hdist (cfg : Config) : applyOption .synthetic cfg ('d', c.dist) =
      .ok { cfg with serviceDist := dist } := by
    show commonOption cfg ('d', c.dist) = _
    rw [commonOption, h.dist]
  have hflag (cfg : Config) : applyOption .synthetic cfg ('r', []) =
        .ok { cfg with machineReadable := true } ∧
      applyOption .synthetic cfg ('e', []) =
        .ok { cfg with useEpollSpin := true } := ⟨rfl, rfl⟩
  rw [spawnOpts, foldlM_option (hflag _).1, foldlM_option (hflag _).2,
    foldlM_option (applyOption_number _ hpad).1,
    foldlM_option (applyOption_number _ hpad).2.1,
    foldlM_option (applyOption_number _ hsamples).2.2.1,
    foldlM_option (hmode _), foldlM_option (hdist _),
    foldlM_option (applyOption_number _ hconns).2.2.2]
  rfl

/-- Few samples are scaled without a rounding error. -/
theorem Understood.scaled (h : Understood c addr port mode dist)
    (hsamples : 0 < c.samples.toNat) {cfg : Config}
    (hcfg : cfg.samples = c.samples)
    (hrate : cfg.reqS = .num c.reqsPerSec.toNat) :
    scaleSamples cfg =
      .ok { cfg with samples := c.samples * c.reqsPerSec } := by
  have hsmall := h.samples
  have htotal := h.total
  have hne : cfg.samples ≠ 0 := by
    rw [hcfg]
    rintro heq
    rw [heq] at hsamples
    exact absurd hsamples (by decide)
  have hproduct : (Double.num c.samples.toNat).mul (.num c.reqsPerSec.toNat) =
      .num (c.samples.toNat * c.reqsPerSec.toNat : Nat) := by
    rw [Double.mul, ← Nat.cast_mul, Double.ofRat_natCast htotal]
  refine scaleSamples_ok.mpr ⟨_, ?_, rfl⟩
  rw [if_neg hne, hcfg, Double.ofRat_natCast (by omega), hrate, hproduct]
  refine toUInt64_eq_some_iff.mpr ⟨_, rfl, ?_⟩
  rw [Double.truncate, if_neg (not_lt.mpr (Nat.cast_nonneg _)),
    Int.floor_natCast, UInt64.toNat_mul, Nat.mod_eq_of_lt (by omega)]

/-- **The client means what the coordinator means.** -/
theorem spawn_parsed (h : Understood c addr port mode dist)
    (hsamples : 0 < c.samples.toNat) :
    parseArgv .synthetic (spawnArgs c) =
      .ok (meant addr port mode dist c) := by
  have hservice := h.serviceTime
  have hrate : c.reqsPerSec.toNat < 2 ^ 53 :=
    (Nat.le_mul_of_pos_left _ hsamples).trans_lt h.total
  rw [parseArgv_synthetic (by rw [h.scanArgs]), h.scanArgs, h.options]
  rw [h.scanAddr, scanLf_decimal (by omega), scanLf_decimal hrate]
  exact h.scaled hsamples rfl rfl

/-! ## The parts -/

/-- A part of the work is understood like the whole. -/
theorem Understood.part (h : Understood c addr port mode dist) {part : Cfg}
    (hothers : { part with samples := c.samples, reqsPerSec := c.reqsPerSec
                           conns := c.conns } = c)
    (hsamples : part.samples.toNat ≤ c.samples.toNat)
    (hrate : part.reqsPerSec.toNat ≤ c.reqsPerSec.toNat)
    (hconns : part.conns.toNat ≤ c.conns.toNat) :
    Understood part addr port mode dist where
  host := (congrArg Cfg.host hothers).trans h.host
  named := h.named
  short := h.short
  mode := (congrArg (connModeOf ·.mode) hothers).trans h.mode
  dist := (congrArg (serviceDistOf ·.dist) hothers).trans h.dist
  timePad := (congrArg (·.timePad.toNat) hothers).trans_lt h.timePad
  conns := hconns.trans_lt h.conns
  samples := hsamples.trans_lt h.samples
  serviceTime := (congrArg (·.serviceTime.toNat) hothers).trans_lt h.serviceTime
  total := (Nat.mul_le_mul hsamples hrate).trans_lt h.total

theorem connInt_meant (h : c.conns.toNat < 2 ^ 31) :
    (meant addr port mode dist c).connInt = c.conns.toNat := by
  have hint : (Int32.ofInt c.conns.toNat).toInt = c.conns.toNat :=
    Int32.toInt_ofInt_of_le (by omega) (by omega)
  have hcnt : UInt64.ofInt c.conns.toNat = c.conns := by
    refine UInt64.toNat_inj.mp ?_
    rw [toNat_ofInt]
    omega
  have hconn := connInt_ofInt (Int32.ofInt c.conns.toNat)
  rwa [hint, hcnt] at hconn

/-- What is meant is safe for the client. -/
theorem Understood.safe (h : Understood c addr port mode dist)
    (hsamples : 0 < c.samples.toNat) (hrate : 0 < c.reqsPerSec.toNat)
    (hconns : 0 < c.conns.toNat) : Safe (meant addr port mode dist c) where
  addr := h.short
  conns := by
    intro hpooled
    rw [connInt_meant h.conns]
    exact ⟨hconns, by omega⟩
  records := nofun
  samples := by
    show 0 < (c.samples * c.reqsPerSec).toNat
    have htotal := h.total
    rw [UInt64.toNat_mul, Nat.mod_eq_of_lt (by omega)]
    exact Nat.mul_pos hsamples hrate

/-! ## Main results -/

/-- **The clients of a measurement**: they differ in nothing but their shares
of the work. -/
structure Clients (c : Cfg) (addr : List Char) (port : UInt16)
    (mode : ConnMode) (dist : ServiceDist) (cfgs : List Config) : Prop where
  safe : ∀ cfg ∈ cfgs, Safe cfg
  alike : ∀ cfg ∈ cfgs, { cfg with
    connCnt := c.conns, reqS := .num c.reqsPerSec.toNat
    samples := c.samples * c.reqsPerSec } = meant addr port mode dist c
  conns : Shared c.conns (cfgs.map (·.connCnt))
  rates : ∃ rates : List UInt64, Shared c.reqsPerSec rates ∧
    cfgs.map (·.reqS) = rates.map fun rate => .num rate.toNat

/-- **What `measure` asks for** is what its clients do together. -/
theorem measure_spawns (h : Understood c addr port mode dist) {cnt : UInt64}
    (hpos : 1 ≤ cnt.toNat) (hcnt : cnt.toNat ≤ 2 ^ 32 - 1)
    (hsamples : cnt.toNat ≤ c.samples.toNat)
    (hrate : cnt.toNat ≤ c.reqsPerSec.toNat)
    (hconns : cnt.toNat ≤ c.conns.toNat) :
    ∃ cfgs, (divCfg c cnt).map
        (fun part => parseArgv .synthetic (spawnArgs part)) =
          cfgs.map .ok ∧ Clients c addr port mode dist cfgs := by
  have hdivided := divided c hpos (by omega)
  have hpart : ∀ part ∈ divCfg c cnt, Understood part addr port mode dist ∧
      0 < part.samples.toNat ∧ 0 < part.reqsPerSec.toNat ∧
        0 < part.conns.toNat := by
    intro part hmem
    have hothers := hdivided.others part hmem
    obtain ⟨i, -, rfl⟩ := List.mem_map.mp hmem
    have hshare (total : UInt64) := toNat_part total hpos (by omega) i
    refine ⟨h.part hothers ?_ ?_ ?_, ?_, ?_, ?_⟩
    · exact (hshare _).trans_le (share_le _ hpos)
    · exact (hshare _).trans_le (share_le _ hpos)
    · exact (hshare _).trans_le (share_le _ hpos)
    · exact (hshare c.samples).symm ▸ share_pos i hpos hsamples
    · exact (hshare c.reqsPerSec).symm ▸ share_pos i hpos hrate
    · exact (hshare c.conns).symm ▸ share_pos i hpos hconns
  refine ⟨(divCfg c cnt).map (meant addr port mode dist), ?_, ?_, ?_, ?_, ?_⟩
  · rw [List.map_map]
    refine List.map_congr_left fun part hmem => ?_
    obtain ⟨hunderstood, hpos, -⟩ := hpart part hmem
    exact spawn_parsed hunderstood hpos
  · intro cfg hcfg
    obtain ⟨part, hmem, rfl⟩ := List.mem_map.mp hcfg
    obtain ⟨hunderstood, hsamples', hrate', hconns'⟩ := hpart part hmem
    exact hunderstood.safe hsamples' hrate' hconns'
  · intro cfg hcfg
    obtain ⟨part, hmem, rfl⟩ := List.mem_map.mp hcfg
    exact congrArg (meant addr port mode dist) (hdivided.others part hmem)
  · rw [List.map_map]
    exact hdivided.conns
  · refine ⟨_, hdivided.reqsPerSec, ?_⟩
    rw [List.map_map, List.map_map]
    rfl

/-- Thirty samples at seven requests a second, on four connections. -/
private def thirty : Cfg where
  samples := 30
  reqsPerSec := 7
  conns := 4
  timePad := 2
  mode := "round_robin".toList
  dist := "exp".toList
  host := "10.0.0.1:80".toList
  serviceTime := 10

private theorem thirty_understood : Understood thirty "10.0.0.1".toList 80
    .roundRobin .exponential :=
  ⟨by decide, by decide, by decide, rfl, rfl, by decide, by decide, by decide,
    by decide, by decide⟩

theorem measure_spawns_thirty : ∃ cfgs, (divCfg thirty 3).map
      (fun part => parseArgv .synthetic (spawnArgs part)) = cfgs.map .ok ∧
    Clients thirty "10.0.0.1".toList 80 .roundRobin .exponential cfgs :=
  measure_spawns thirty_understood (by decide) (by decide) (by decide)
    (by decide) (by decide)

end Mutated.Ports.Coord
