import Mutated.Ports.ProgramRuns
import Mutated.Verified.Shares

/-!
# The load of the connections

With `roundRobin` the requests are spread evenly over the pool: however sends,
timers and events on the sockets interleave, the `g`-th of `k` connections was
handed the requests `g`, `g + k`, `g + 2 k`, ... in this order, and no
connection is more than one request ahead of another.

`idx` wraps around, so this needs schedules of at most `2^31` requests.
-/

namespace Mutated.Ports

open Mutated.Verified.Exec
open Mutated.Verified.Shares
open Mutated.Ports.Load

namespace Program

variable {R C : ℕ+} {u : Setting} {net : Nat → Served} {p : Program R C}

/-- **The first `n` requests are spread evenly** over the pool. -/
structure Even (u : Setting) (n : Nat) (p : Program R C) : Prop where
  links : p.links.length = u.cfg.connCnt.toNat
  made : ∀ (g : Nat) (l : Link R C), p.links[g]? = some l →
    l.made = (List.range n).filter fun i => i % u.cfg.connCnt.toNat = g
  load : ∀ (g : Nat) (l : Link R C), p.links[g]? = some l →
    l.made.length = share n u.cfg.connCnt.toNat g
  even : ∀ l ∈ p.links, ∀ l' ∈ p.links, l.made.length ≤ l'.made.length + 1

/-- Before `idx` wraps around, the `i`-th request goes to connection `i % k`. -/
theorem dealt_eq {n : Nat} (h : n ≤ 2 ^ 31) (k g : Nat) :
    dealt k n g = (List.range n).filter fun i => i % k = g := by
  apply List.filter_congr
  intro i hi
  rw [turn_of_lt (Nat.lt_of_lt_of_le (List.mem_range.mp hi) h)]

theorem Alternates.even {n : Nat}
    (h : Alternates u.cfg.connCnt.toNat n p) (hn : n ≤ 2 ^ 31) :
    Even u n p := by
  have hmade (g : Nat) (l : Link R C) (hl : p.links[g]? = some l) :
      l.made = (List.range n).filter fun i => i % u.cfg.connCnt.toNat = g :=
    (h.made_eq hl).trans (dealt_eq hn _ g)
  have hload (g : Nat) (l : Link R C) (hl : p.links[g]? = some l) :
      l.made.length = share n u.cfg.connCnt.toNat g := by
    have hlt := (List.getElem?_eq_some_iff.mp hl).1
    rw [hmade g l hl]
    exact length_filter_mod n (h.length_eq ▸ hlt)
  refine ⟨h.length_eq, hmade, hload, fun l hl l' hl' => ?_⟩
  obtain ⟨g, hg⟩ := List.mem_iff_getElem?.mp hl
  obtain ⟨g', hg'⟩ := List.mem_iff_getElem?.mp hl'
  rw [hload g l hg, hload g' l' hg']
  exact share_le_succ _ _ _ _

/-- **The load in every run**: while the program runs, when it fails, and at
the exit, when every connection has told about its share. -/
theorem run_even (hu : u.Valid) (hmode : u.cfg.connMode = .roundRobin)
    (hshort : u.plan.totalSamples ≤ 2 ^ 31) (clock : Int)
    (calls : List Call) :
    Ends (fun _ p => Even u p.client.core.sentCount p)
      (fun reason p => (∃ n ≤ u.plan.totalSamples, Even u n p) ∧
        (reason = .client .exit → Even u u.plan.totalSamples p ∧
          ∀ (g : Nat) (l : Link R C), p.links[g]? = some l →
            l.gen.done.length =
              share u.plan.totalSamples u.cfg.connCnt.toNat g))
      (run u calls (start clock : Program R C)) := by
  have hpool := hu.pool (by simp [hmode])
  apply run_ends hu clock calls
  · intro net calls' p c hrun hmirrors
    have hsending := Experiment.run_sending (e := u.experiment net) clock calls'
    rw [hrun] at hsending
    refine Alternates.even (hpool ▸ hmirrors.tracks.sound.turns hmode)
      (Nat.le_trans ?_ hshort)
    rw [show p.client.core.sentCount = _ from hmirrors.like.sentCount]
    exact Nat.le_trans (Nat.le_add_right _ _) hsending.begun_le
  · intro net calls' reason p c hrun hover
    have hsending := Experiment.run_sending (e := u.experiment net) clock calls'
    rw [hrun] at hsending
    have hle : c.core.begun ≤ u.plan.totalSamples := hsending.begun_le
    have heven := Alternates.even (hpool ▸ hover.ended.turns hmode)
      (Nat.le_trans hle hshort)
    refine ⟨⟨_, hle, heven⟩, ?_⟩
    rintro rfl
    have hexit := hover.exit hrun
    have hall : c.core.begun = u.plan.totalSamples := by
      simpa using (hover.ended.made.symm.trans hexit.made).length_eq
    rw [hall] at heven
    refine ⟨heven, fun g l hl => ?_⟩
    have hserials := congrArg List.length (hexit.serials g l hl)
    rw [List.length_map, List.length_range] at hserials
    exact hserials.trans (heven.load g l hl)

/-- Three requests, a microsecond apart, on two connections. -/
private def spread : Setting where
  cfg := { connCnt := 2 }
  plan := .measuring 0 [1000, 2000]
  beyond := fun _ => 0
  pool := [⟨0, fun _ => 0, fun _ => 0, 0, 0, id⟩,
    ⟨1, fun _ => 0, fun _ => 0, 0, 0, id⟩]
  attempts := fun _ => ⟨0, ⟨0, fun _ => 0, fun _ => 0, 0, 0, id⟩,
    ⟨0, false, fun _ _ => 0, [], []⟩, 0⟩
  took := fun _ => 1000

private theorem spread_valid : spread.Valid where
  replies := fun _ => rfl
  pool := fun _ => rfl
  connected := fun _ => by decide
  picks := nofun

/-- The last two are sent late and at once; the second is answered last. -/
private def spreadCalls : List Call :=
  [.wait 2000, .timer, .runIo 0 0 EPOLLOUT .ok [] [.accepted 288],
    .runIo 1 0 EPOLLOUT .ok [] [.accepted 144],
    .runIo 0 0 EPOLLIN .ok [.data 0 (List.replicate 15 0)] [],
    .runIo 1 0 EPOLLIN .ok [.data 0 (List.replicate 7 0)] []]

private def spreadRun : EStateM.Result Reason
    (Program maxOutstandingReqs charbufSize) Unit :=
  run spread spreadCalls (start 0)

theorem run_even_spread :
    thrown spreadRun = some (.client .exit) ∧
      (after spreadRun).links.map Link.made = [[0, 2], [1]] ∧
      Ends (fun _ p => Even spread p.client.core.sentCount p)
        (fun reason p => (∃ n ≤ spread.plan.totalSamples, Even spread n p) ∧
          (reason = .client .exit → Even spread spread.plan.totalSamples p ∧
            ∀ (g : Nat) (l : Link maxOutstandingReqs charbufSize),
              p.links[g]? = some l → l.gen.done.length =
                share spread.plan.totalSamples spread.cfg.connCnt.toNat g))
        spreadRun :=
  ⟨by decide +kernel, by decide +kernel,
    run_even spread_valid rfl (by decide) 0 spreadCalls⟩

end Program

end Mutated.Ports
