import Mathlib.Data.List.Perm.Basic
import Mutated.Ports.Coordinator
import Mutated.Verified.Shares

/-!
# Work for several generators

`measure` divides the work of a measurement among generators that run at the
same time, and adds up what they return in the order in which they are done.

* `uint` and `int` have 64 bits, and a `float64` is exact.
* A goroutine is a part of the work that is not done.  An arrival is one of
  them, by its place among those that still run, and the output it gets.

## Main results

`divCfg_divides` says what the parts are and what is offered in the end.
-/

namespace Mutated.Ports.Coord

open Mutated.Ports.Load
open Mutated.Verified.Exec
open Mutated.Verified.Shares

/-! ## `divCfg` -/

/-- What part `i` gets of the rest. -/
def rest (total cnt : UInt64) (i : Nat) : UInt64 :=
  if (i : Int) < (total % cnt).toInt64.toInt then 1 else 0

def divCfg (c : Cfg) (cnt : UInt64) : List Cfg :=
  let split := { c with
    samples := c.samples / cnt
    reqsPerSec := c.reqsPerSec / cnt
    conns := c.conns / cnt }
  (List.range cnt.toNat).map fun i => { split with
    samples := split.samples + rest c.samples cnt i
    reqsPerSec := split.reqsPerSec + rest c.reqsPerSec cnt i
    conns := split.conns + rest c.conns cnt i }

/-! ## `measure` -/

/-- `NewResult`. -/
def newResult (sampleCount : UInt64) : Result :=
  ⟨0, 0, List.replicate sampleCount.toNat 0⟩

def Result.accum (r a : Result) : Result where
  offeredReqsPerSec := r.offeredReqsPerSec + a.offeredReqsPerSec
  measuredReqsPerSec := r.measuredReqsPerSec + a.measuredReqsPerSec
  samples := r.samples ++ a.samples

/-- `measure` at work: the goroutines that run, how many parts were received,
and their sum. -/
structure Measuring where
  running : List Cfg
  received : Nat := 0
  result : Result := newResult 0

/-- The next goroutine that is done, and the output of its client. -/
structure Arrival where
  place : Nat
  output : List Line

/-- A part is done, sent and received.  An error ends the program. -/
def receive (a : Arrival) : EStateM Failure Measuring Unit := do
  let m ← get
  match m.running[a.place]? with
  | none => pure ()
  | some v =>
      match measureOne v a.output with
      | .error failure => throw failure
      | .ok part => set { m with
          running := m.running.eraseIdx a.place
          received := m.received + 1
          result := m.result.accum part }

/-- `measure` returns once it has received `cnt` parts. -/
def measure (c : Cfg) (cnt : UInt64) (arrivals : List Arrival) :
    Except Failure (Option Result) :=
  match runAll receive arrivals { running := divCfg c cnt } with
  | .error failure _ => .error failure
  | .ok _ m => .ok (if m.received = cnt.toNat then some m.result else none)

/-- `doExperiment` behind its warm-up, from step `i` on: the results that it
displays.  There is a list of arrivals for every step. -/
def doExperiment (c : Cfg) (cnt steps : UInt64) (i : UInt64) :
    List (List Arrival) → List Result
  | [] => []
  | arrivals :: behind =>
      let rate := c.reqsPerSec * i / steps
      if i ≤ steps then
        match measure { c with reqsPerSec := rate } cnt arrivals with
        | .ok (some r) => r :: doExperiment c cnt steps (i + 1) behind
        | _ => []
      else []

/-! ## The parts -/

variable {c : Cfg} {cnt : UInt64}

/-- The rest is no negative `int`. -/
theorem toInt_mod (total : UInt64) (hcnt : 0 < cnt.toNat)
    (hint : cnt.toNat ≤ 2 ^ 63) :
    (total % cnt).toInt64.toInt = (total.toNat % cnt.toNat : Nat) := by
  have hlt := Nat.mod_lt total.toNat hcnt
  have hnat : (total % cnt).toBitVec.toNat = total.toNat % cnt.toNat :=
    UInt64.toNat_mod total cnt
  show (total % cnt).toBitVec.toInt = _
  rw [BitVec.toInt_eq_toNat_of_lt (by omega), hnat]

/-- **A part is a share.** -/
theorem toNat_part (total : UInt64) (hcnt : 0 < cnt.toNat)
    (hint : cnt.toNat ≤ 2 ^ 63) (i : Nat) :
    (total / cnt + rest total cnt i).toNat =
      share total.toNat cnt.toNat i := by
  have hlt := total.toNat_lt
  have hle := share_le (i := i) total.toNat hcnt
  have hrest : (rest total cnt i).toNat =
      if i < total.toNat % cnt.toNat then 1 else 0 := by
    rw [rest, toInt_mod total hcnt hint]
    simp only [Int.ofNat_lt]
    split <;> rfl
  rw [UInt64.toNat_add, hrest, UInt64.toNat_div]
  exact Nat.mod_eq_of_lt (Nat.lt_of_le_of_lt hle hlt)

/-- One quantity of the parts: nothing is lost, no two parts differ by more
than one, and the larger ones come first. -/
structure Shared (total : UInt64) (parts : List UInt64) : Prop where
  sum : (parts.map (·.toNat)).sum = total.toNat
  near : ∀ a ∈ parts, ∀ b ∈ parts, a.toNat ≤ b.toNat + 1
  largerFirst : parts.Pairwise (· ≥ ·)

theorem shared_parts (total : UInt64) (hcnt : 0 < cnt.toNat)
    (hint : cnt.toNat ≤ 2 ^ 63) :
    Shared total ((List.range cnt.toNat).map
      fun i => total / cnt + rest total cnt i) := by
  have hpart := toNat_part total hcnt hint
  constructor
  · rw [List.map_map]
    refine Eq.trans (congrArg List.sum ?_) (sum_share total.toNat hcnt)
    exact List.map_congr_left fun i _ => hpart i
  · intro a ha b hb
    obtain ⟨i, -, rfl⟩ := List.mem_map.mp ha
    obtain ⟨j, -, rfl⟩ := List.mem_map.mp hb
    rw [hpart, hpart]
    exact share_le_succ _ _ i j
  · refine List.pairwise_map.mpr (List.pairwise_lt_range.imp fun hij => ?_)
    refine UInt64.le_iff_toNat_le.mpr ?_
    rw [hpart, hpart]
    exact share_antitone _ _ (Nat.le_of_lt hij)

/-- **The work is divided.** -/
structure Divided (c : Cfg) (cnt : UInt64) (parts : List Cfg) : Prop where
  length : parts.length = cnt.toNat
  samples : Shared c.samples (parts.map (·.samples))
  reqsPerSec : Shared c.reqsPerSec (parts.map (·.reqsPerSec))
  conns : Shared c.conns (parts.map (·.conns))
  others : ∀ part ∈ parts, { part with
    samples := c.samples, reqsPerSec := c.reqsPerSec, conns := c.conns } = c

theorem divided (c : Cfg) (hcnt : 0 < cnt.toNat) (hint : cnt.toNat ≤ 2 ^ 63) :
    Divided c cnt (divCfg c cnt) := by
  constructor
  · rw [divCfg, List.length_map, List.length_range]
  · rw [divCfg, List.map_map]
    exact shared_parts c.samples hcnt hint
  · rw [divCfg, List.map_map]
    exact shared_parts c.reqsPerSec hcnt hint
  · rw [divCfg, List.map_map]
    exact shared_parts c.conns hcnt hint
  · intro part hpart
    obtain ⟨i, -, rfl⟩ := List.mem_map.mp hpart
    rfl

/-! ## What is received -/

/-- **The invariant** of a measurement: what was received and what is still
running make up the whole. -/
structure Whole (c : Cfg) (cnt : UInt64) (m : Measuring) : Prop where
  parts : m.received + m.running.length = cnt.toNat
  offered : m.result.offeredReqsPerSec.toNat +
    (m.running.map (·.reqsPerSec.toNat)).sum = c.reqsPerSec.toNat
  samples : m.result.samples.length +
    (m.running.map (·.samples.toNat)).sum = c.samples.toNat

theorem length_readSamples {v : Cfg} {lines : List Line} :
    ∀ {i j : Nat} {samples out : List Int},
    readSamples v i samples lines = .ok (j, out) →
      out.length = samples.length := by
  induction lines with
  | nil =>
      intro i j samples out h
      cases h
      rfl
  | cons line lines ih =>
      intro i j samples out h
      rw [readSamples] at h
      obtain ⟨n, -, h⟩ := except_bind_eq_ok.mp h
      split at h
      · split at h
        · cases h
          exact List.length_set
        · exact (ih h).trans List.length_set
      · cases h

/-- What is returned for a part. -/
theorem measureOne_ok {v : Cfg} {output : List Line} {part : Result}
    (h : measureOne v output = .ok part) :
    part.offeredReqsPerSec = v.reqsPerSec ∧
      part.samples.length = v.samples.toNat := by
  rw [measureOne] at h
  obtain ⟨⟨i, samples⟩, hread, h⟩ := except_bind_eq_ok.mp h
  dsimp only at h
  split at h
  · cases h
    exact ⟨rfl, (length_readSamples hread).trans List.length_replicate⟩
  · cases h

/-- A goroutine that is done leaves the others running. -/
theorem sum_eraseIdx {m : Measuring} {place : Nat} {v : Cfg}
    (hv : m.running[place]? = some v) (f : Cfg → Nat) :
    f v + ((m.running.eraseIdx place).map f).sum = (m.running.map f).sum := by
  obtain ⟨hplace, rfl⟩ := List.getElem?_eq_some_iff.mp hv
  have hperm := List.getElem_cons_eraseIdx_perm hplace
  rw [← (hperm.map f).sum_eq, List.map_cons, List.sum_cons]

theorem Whole.accum {m : Measuring} (h : Whole c cnt m) {place : Nat} {v : Cfg}
    (hv : m.running[place]? = some v) {part : Result}
    (hoffered : part.offeredReqsPerSec = v.reqsPerSec)
    (hsamples : part.samples.length = v.samples.toNat) :
    Whole c cnt ⟨m.running.eraseIdx place, m.received + 1,
      m.result.accum part⟩ := by
  have hlt := c.reqsPerSec.toNat_lt
  have hsum := sum_eraseIdx hv (·.reqsPerSec.toNat)
  have hcount := sum_eraseIdx hv (·.samples.toNat)
  have htotal := h.offered
  have hwhole := h.samples
  constructor
  · have hplace := (List.getElem?_eq_some_iff.mp hv).1
    have hparts := h.parts
    show m.received + 1 + (m.running.eraseIdx place).length = cnt.toNat
    rw [List.length_eraseIdx_of_lt hplace]
    omega
  · show (m.result.offeredReqsPerSec + part.offeredReqsPerSec).toNat +
      ((m.running.eraseIdx place).map (·.reqsPerSec.toNat)).sum = _
    rw [UInt64.toNat_add, hoffered, Nat.mod_eq_of_lt (by omega)]
    omega
  · show (m.result.samples ++ part.samples).length +
      ((m.running.eraseIdx place).map (·.samples.toNat)).sum = _
    rw [List.length_append]
    omega

/-- **Every arrival** keeps the measurement whole. -/
theorem receive_triple (a : Arrival) :
    Triple (Whole c cnt) (receive a) (fun _ => Whole c cnt)
      (fun _ => Whole c cnt) := by
  refine .get fun m hm => ?_
  cases hv : m.running[a.place]? with
  | none => exact .pure fun s hs => hs ▸ hm
  | some v =>
      dsimp only
      cases hone : measureOne v a.output with
      | error failure => exact .throw fun s hs => hs ▸ hm
      | ok part =>
          obtain ⟨hoffered, hsamples⟩ := measureOne_ok hone
          rintro s rfl
          exact .ok (a := PUnit.unit) (hm.accum hv hoffered hsamples)

theorem whole_start (c : Cfg) (hcnt : 0 < cnt.toNat)
    (hint : cnt.toNat ≤ 2 ^ 63) :
    Whole c cnt { running := divCfg c cnt } := by
  have hdivided := divided c hcnt hint
  refine ⟨(Nat.zero_add _).trans hdivided.length, ?_, ?_⟩
  · have hsum := hdivided.reqsPerSec.sum
    rw [List.map_map] at hsum
    exact (Nat.zero_add _).trans hsum
  · have hsum := hdivided.samples.sum
    rw [List.map_map] at hsum
    exact (Nat.zero_add _).trans hsum

/-- **What `measure` returns** makes up the whole: the rate that is offered, and
the number of samples. -/
theorem measure_whole (hcnt : 0 < cnt.toNat) (hint : cnt.toNat ≤ 2 ^ 63)
    {arrivals : List Arrival} {r : Result}
    (h : measure c cnt arrivals = .ok (some r)) :
    r.offeredReqsPerSec = c.reqsPerSec ∧
      r.samples.length = c.samples.toNat := by
  have hwhole : Triple (Whole c cnt) (runAll receive arrivals)
      (fun _ => Whole c cnt) fun _ => Whole c cnt :=
    .runAll receive_triple arrivals
  unfold measure at h
  cases hrun : runAll receive arrivals { running := divCfg c cnt } with
  | error failure m =>
      rw [hrun] at h
      cases h
  | ok a m =>
      rw [hrun] at h
      have hm := hwhole.of_ok (whole_start c hcnt hint) hrun
      have hreturn := Except.ok.inj h
      by_cases hall : m.received = cnt.toNat
      · rw [if_pos hall] at hreturn
        cases hreturn
        have hparts := hm.parts
        have hnone : m.running = [] :=
          List.eq_nil_of_length_eq_zero (by omega)
        have hoffered := hm.offered
        have hsamples := hm.samples
        rw [hnone] at hoffered hsamples
        exact ⟨UInt64.toNat_inj.mp hoffered, hsamples⟩
      · rw [if_neg hall] at hreturn
        cases hreturn

/-! ## Main results -/

/-- **The work is divided and nothing is lost**: the parts make up the whole,
and so does what is offered in the end, in whatever order the parts are
done. -/
theorem divCfg_divides (c : Cfg) {cnt : UInt64} (hpos : 1 ≤ cnt.toNat)
    (hcnt : cnt.toNat ≤ 2 ^ 32 - 1) :
    Divided c cnt (divCfg c cnt) ∧
      ∀ arrivals r, measure c cnt arrivals = .ok (some r) →
        r.offeredReqsPerSec = c.reqsPerSec :=
  ⟨divided c hpos (by omega), fun _ _ h => (measure_whole hpos (by omega) h).1⟩

/-- Three samples at seven requests a second. -/
private def seven : Cfg where
  samples := 3
  reqsPerSec := 7
  conns := 1
  timePad := 0
  mode := "round_robin".toList
  dist := "exp".toList
  host := "10.0.0.1:80".toList
  serviceTime := 1

/-- Two generators, of which the second is done first. -/
theorem divCfg_divides_seven :
    Divided seven 2 (divCfg seven 2) ∧ ∃ arrivals r,
      measure seven 2 arrivals = .ok (some r) ∧ r.samples = [5, 6, 8] ∧
        r.offeredReqsPerSec = seven.reqsPerSec := by
  have hdivides : Divided seven 2 (divCfg seven 2) ∧ _ :=
    divCfg_divides seven (by decide) (by decide)
  have hmeasure : measure seven 2 [⟨1, [.rate 3, .sample 5]⟩,
      ⟨0, [.rate 4, .sample 6, .sample 8]⟩] =
        .ok (some ⟨7, 0 + 3 + 4, [5, 6, 8]⟩) := rfl
  exact ⟨hdivides.1, _, _, hmeasure, rfl, hdivides.2 _ _ hmeasure⟩

/-- The rate of a step does not wrap around. -/
theorem toNat_rate {rate i steps : UInt64} (hrate : rate.toNat < 2 ^ 32)
    (hi : i.toNat < 2 ^ 32) :
    (rate * i / steps).toNat = rate.toNat * i.toNat / steps.toNat := by
  have hproduct : rate.toNat * i.toNat < 2 ^ 32 * 2 ^ 32 :=
    Nat.mul_lt_mul'' hrate hi
  rw [UInt64.toNat_div, UInt64.toNat_mul, Nat.mod_eq_of_lt (by omega)]

/-- **The rates rise evenly** up to the one that was asked for, and no step
loses a sample. -/
theorem doExperiment_offered (hpos : 1 ≤ cnt.toNat)
    (hcnt : cnt.toNat ≤ 2 ^ 32 - 1) {steps : UInt64}
    (hmax : c.reqsPerSec.toNat < 2 ^ 32) (hsteps : steps.toNat < 2 ^ 32)
    {arrivals : List (List Arrival)} {k : Nat} {r : Result} :
    ∀ {i : UInt64}, (doExperiment c cnt steps i arrivals)[k]? = some r →
      r.offeredReqsPerSec.toNat =
          c.reqsPerSec.toNat * (i.toNat + k) / steps.toNat ∧
        r.samples.length = c.samples.toNat := by
  induction arrivals generalizing k with
  | nil =>
      intro i h
      cases h
  | cons first behind ih =>
      intro i h
      rw [doExperiment] at h
      split at h
      case isFalse => cases h
      case isTrue hi =>
          have hle : i.toNat ≤ steps.toNat := UInt64.le_iff_toNat_le.mp hi
          split at h
          case h_2 => cases h
          case h_1 part hmeasure =>
              obtain ⟨hoffered, hsamples⟩ :=
                measure_whole hpos (by omega) hmeasure
              cases k with
              | zero =>
                  cases h
                  refine ⟨?_, hsamples⟩
                  rw [hoffered, toNat_rate hmax (by omega)]
                  rfl
              | succ k =>
                  have hnext : (i + 1).toNat = i.toNat + 1 := by
                    rw [UInt64.toNat_add, UInt64.toNat_one]
                    exact Nat.mod_eq_of_lt (by omega)
                  have hbehind := ih h
                  rwa [hnext, Nat.add_assoc, Nat.add_comm 1] at hbehind

end Mutated.Ports.Coord
