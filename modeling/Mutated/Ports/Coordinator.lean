import Mutated.Ports.Admission
import Mutated.Ports.ClientOutput

/-!
# The coordinator

`measureOne` has another machine spawn a client, and reads the samples that
the client prints.  It asks for `samples` samples, makes room for as many, and
reads as many lines.

* `uint` has 64 bits.
* The other machine is not part of the program: it cuts the line at its blanks
  and hands the lines of the client back.
* A `Line` stands for its text.  `ParseFloat` reads what `%f` prints, and
  `ParseInt` does not.

## Main results

`measureOne_samples_iff` says when `measureOne` returns all samples of an
output.
-/

namespace Mutated.Ports.Coord

open Mutated.Ports.Load
open Mutated.Verified.Exec

/-! ## `measureOne` -/

/-- `cfg`. -/
structure Cfg where
  samples : UInt64
  reqsPerSec : UInt64
  conns : UInt64
  timePad : UInt64
  mode : List Char
  dist : List Char
  host : List Char
  serviceTime : UInt64

/-- `result`. -/
structure Result where
  offeredReqsPerSec : UInt64
  measuredReqsPerSec : ℚ
  samples : List Int
  deriving DecidableEq, Repr

/-- Why there is no result: an error is returned, or the program ends. -/
inductive Failure
  | error (what : String)
  | indexOutOfRange
  deriving DecidableEq, Repr

/-- `%d`. -/
def decimal (n : UInt64) : List Char := Nat.toDigits 10 n.toNat

/-- The arguments of the client, behind the name of the program. -/
def spawnArgs (c : Cfg) : List (List Char) :=
  ["-r".toList, "-e".toList, "-w".toList, decimal c.timePad,
    "-c".toList, decimal c.timePad, "-s".toList, decimal c.samples,
    "-m".toList, c.mode, "-d".toList, c.dist, "-n".toList, decimal c.conns,
    c.host, decimal c.serviceTime, decimal c.reqsPerSec]

/-- `strconv.ParseFloat`. -/
def parseFloat : Line → ℚ
  | .rate reqps => reqps
  | .sample us => us.toNat

/-- `strconv.ParseInt`, of 32 bits. -/
def parseInt : Line → Except Failure Int
  | .rate _ => .error (.error "invalid syntax")
  | .sample us =>
      if us.toNat < 2 ^ 31 then .ok us.toNat
      else .error (.error "value out of range")

/-- The loop of `measureOne`: how many samples are there, and the array. -/
def readSamples (c : Cfg) (i : Nat) (samples : List Int) :
    List Line → Except Failure (Nat × List Int)
  | [] => .ok (i, samples)
  | line :: lines => do
      let v ← parseInt line
      if i < samples.length then
        if c.samples.toNat ≤ i + 1 then .ok (i + 1, samples.set i v)
        else readSamples c (i + 1) (samples.set i v) lines
      else .error .indexOutOfRange

/-- `measureOne`, once the client is there, with what the client prints. -/
def measureOne (c : Cfg) (output : List Line) : Except Failure Result := do
  let (i, samples) ←
    readSamples c 0 (List.replicate c.samples.toNat 0) output.tail
  if i = c.samples.toNat then
    .ok ⟨c.reqsPerSec, (output.head?.map parseFloat).getD 0, samples⟩
  else .error (.error "Not enough samples")

/-! ## What is read -/

/-- What the array holds of the samples. -/
def stored (us : List UInt64) : List Int := us.map fun v => v.toNat

/-- **The loop** reads samples until the array is full. -/
theorem readSamples_eq_ok_iff {c : Cfg} {us : List UInt64} :
    ∀ {i : Nat} {samples out : List Int}, i < c.samples.toNat →
    samples.length = c.samples.toNat →
    (readSamples c i samples (us.map .sample) = .ok (c.samples.toNat, out) ↔
      c.samples.toNat - i ≤ us.length ∧
        (∀ v ∈ us.take (c.samples.toNat - i), v.toNat < 2 ^ 31) ∧
        out = samples.take i ++ stored (us.take (c.samples.toNat - i))) := by
  induction us with
  | nil =>
      intro i samples out hi hlength
      refine iff_of_false (fun h => ?_) fun h => ?_
      · cases h
        exact absurd hi (Nat.lt_irrefl _)
      · have hle := h.1
        simp only [List.length_nil] at hle
        omega
  | cons v us ih =>
      intro i samples out hi hlength
      have hroom : c.samples.toNat - i = c.samples.toNat - (i + 1) + 1 := by
        omega
      have hset : (samples.set i v.toNat).take (i + 1) =
          samples.take i ++ [(v.toNat : Int)] := by
        rw [List.take_add_one, List.take_set_of_le (Nat.le_refl i),
          List.getElem?_set_self (by omega)]
        rfl
      rw [List.map_cons, readSamples, hroom]
      simp only [parseInt, List.take_succ_cons, List.length_cons,
        List.forall_mem_cons]
      by_cases hsmall : v.toNat < 2 ^ 31
      · rw [if_pos hsmall]
        show (if i < samples.length then _ else _ : Except Failure _) = _ ↔ _
        rw [if_pos (by omega)]
        by_cases hfull : c.samples.toNat ≤ i + 1
        · have hlast : i + 1 = c.samples.toNat := by omega
          have hout : samples.take i ++ stored [v] = samples.set i v.toNat :=
            hset.symm.trans (List.take_of_length_le (by
              rw [List.length_set]
              omega))
          rw [if_pos hfull, ← hlast, Nat.sub_self, List.take_zero, hout]
          constructor
          · intro h
            cases h
            exact ⟨Nat.le_add_left _ _, ⟨hsmall, by simp⟩, rfl⟩
          · rintro ⟨-, -, rfl⟩
            rfl
        · rw [if_neg hfull, ih (by omega) ((List.length_set).trans hlength),
            hset, and_iff_right hsmall, Nat.add_le_add_iff_right,
            List.append_assoc]
          rfl
      · rw [if_neg hsmall]
        exact iff_of_false (fun h => by cases h) fun h => hsmall h.2.1.1

/-- Without room, nothing may be read. -/
theorem readSamples_no_room {c : Cfg} (hzero : c.samples.toNat = 0)
    {us : List UInt64} {out : List Int} :
    readSamples c 0 (List.replicate c.samples.toNat 0) (us.map .sample) =
        .ok (c.samples.toNat, out) ↔ us = [] ∧ out = [] := by
  rw [hzero]
  cases us with
  | nil =>
      constructor
      · intro h
        cases h
        exact ⟨rfl, rfl⟩
      · rintro ⟨-, rfl⟩
        rfl
  | cons v us =>
      refine iff_of_false (fun h => ?_) (by simp)
      rw [List.map_cons, readSamples] at h
      obtain ⟨n, -, hroom⟩ := except_bind_eq_ok.mp h
      cases hroom

/-- `measureOne` returns what the loop has read, if it is enough. -/
theorem measureOne_eq_ok_iff {c : Cfg} {line : Line} {lines : List Line}
    {r : Result} :
    measureOne c (line :: lines) = .ok r ↔
      readSamples c 0 (List.replicate c.samples.toNat 0) lines =
          .ok (c.samples.toNat, r.samples) ∧
        r.offeredReqsPerSec = c.reqsPerSec ∧
        r.measuredReqsPerSec = parseFloat line := by
  rw [measureOne, except_bind_eq_ok]
  constructor
  · rintro ⟨⟨i, samples⟩, hread, h⟩
    dsimp only at h
    by_cases hi : i = c.samples.toNat
    · rw [if_pos hi] at h
      cases h
      exact ⟨hi ▸ hread, rfl, rfl⟩
    · rw [if_neg hi] at h
      cases h
  · rintro ⟨hread, hoffered, hmeasured⟩
    refine ⟨_, hread, ?_⟩
    dsimp only
    rw [if_pos rfl]
    cases r
    cases hoffered
    cases hmeasured
    rfl

/-- **All samples are returned** exactly if there are as many as were asked
for, and none has more than 31 bits. -/
theorem measureOne_samples_iff {c : Cfg} {line : Line} {us : List UInt64} :
    (∃ r, measureOne c (line :: us.map .sample) = .ok r ∧
        r.samples = stored us) ↔
      us.length = c.samples.toNat ∧ ∀ v ∈ us, v.toNat < 2 ^ 31 := by
  have hread : (∃ r, measureOne c (line :: us.map .sample) = .ok r ∧
      r.samples = stored us) ↔
      readSamples c 0 (List.replicate c.samples.toNat 0) (us.map .sample) =
        .ok (c.samples.toNat, stored us) := by
    simp only [measureOne_eq_ok_iff]
    constructor
    · rintro ⟨r, ⟨hread, -, -⟩, hall⟩
      rwa [hall] at hread
    · exact fun h => ⟨⟨_, _, _⟩, ⟨h, rfl, rfl⟩, rfl⟩
  rw [hread]
  rcases Nat.eq_zero_or_pos c.samples.toNat with hzero | hpos
  · rw [readSamples_no_room hzero, hzero, List.length_eq_zero_iff]
    constructor
    · rintro ⟨rfl, -⟩
      exact ⟨rfl, by simp⟩
    · rintro ⟨rfl, -⟩
      exact ⟨rfl, rfl⟩
  · rw [readSamples_eq_ok_iff hpos List.length_replicate, Nat.sub_zero,
      List.take_zero, List.nil_append]
    constructor
    · rintro ⟨hle, hsmall, hall⟩
      have hlength := congrArg List.length hall
      rw [stored, stored, List.length_map, List.length_map,
        List.length_take_of_le hle] at hlength
      rw [← hlength, List.take_length] at hsmall
      exact ⟨hlength, hsmall⟩
    · rintro ⟨hlength, hsmall⟩
      rw [← hlength, List.take_length]
      exact ⟨Nat.le_refl _, hsmall, rfl⟩

end Mutated.Ports.Coord
