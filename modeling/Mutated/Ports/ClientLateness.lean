import Mutated.Ports.ClientTimers

/-!
# When the timer expires, and what is late

`timer_handler` arms the timer for the time that is left at its reading of the
clock, but the timer starts after the requests were sent.  Either timer notes
how late a request was, and counts those that are too late.

## Main results

* `timer_precise_iff`: when the timer is armed for the right time.
* `missedSend_agree_iff`: when both timers count the same.
-/

namespace Mutated.Ports.Load

open Mutated.Verified.Exec

namespace Experiment

variable {e : Experiment} {reading : Int} {n : Nat}

/-! ## The time that passes -/

theorem recordSample_clock {v : Int} {measure : Bool} {comp : Completion} :
    Triple (fun c => c.clock = v) (e.recordSample measure comp)
      (fun _ c => c.clock = v) (fun _ _ => True) :=
  (Triple.of_keeps ((recordSample_keeps measure comp).comp Prod.snd) v).mono
    (fun _ h => h) (fun _ _ h => h) fun _ _ _ => trivial

theorem complete_clock {v : Int} (comp : Completion) :
    Triple (fun c => c.clock = v) (e.complete comp)
      (fun _ c => c.clock = v + comp.took) (fun _ _ => True) := by
  refine .bind (Q := fun _ c => c.clock = v + comp.took)
    (.modify fun c hc => congrArg (· + (comp.took : Int)) hc) fun _ =>
    .get fun c hc => ?_
  cases c.pending.find? fun req => req.index = comp.index with
  | none => exact .pure fun s hs => hs ▸ hc
  | some req =>
      exact .bind (Q := fun _ c => c.clock = v + comp.took)
        (.modify fun s hs => hs ▸ hc) fun _ => recordSample_clock

theorem serve_clock {v : Int} (s : Served) :
    Triple (fun c => c.clock = v) (e.serve s)
      (fun _ c => c.clock = v + s.duration) (fun _ _ => True) := by
  have hall : ∀ (comps : List Completion) (v : Int),
      Triple (fun c => c.clock = v) (runAll e.complete comps)
        (fun _ c => c.clock = v + (comps.map (·.took)).sum)
        (fun _ _ => True) := by
    intro comps
    induction comps with
    | nil => exact fun v => .pure fun c hc => by simpa using hc
    | cons comp comps ih =>
        intro v
        refine .bind (complete_clock comp) fun _ => (ih _).mono
          (fun _ h => h) (fun _ c hc => ?_) fun _ _ h => h
        rw [hc, List.map_cons, List.sum_cons]
        omega
  refine .bind (hall s.completions v) fun _ =>
    .bind (Q := fun _ c => c.clock = v + s.duration)
      (.modify fun c hc => ?_) fun _ =>
        .runIf (fun _ => .throw fun _ _ => trivial) fun _ _ hc => hc
  show c.clock + s.took = v + s.duration
  rw [hc, Served.duration]
  omega

theorem sendOne_clock {v : Int} :
    Triple (fun c => c.place = (n, false) ∧ c.clock = v) e.sendOne
      (fun _ c => c.clock = v + (e.net n).duration) (fun _ _ => True) := by
  refine sendOne_rule (n := n) ?_ (serve_clock (v := v) (e.net n)) ?_
  · rintro c ⟨hplace, hclock⟩
    obtain ⟨starts, start, hstarting, -⟩ := starting_log (e := e) c
    rw [hstarting]
    exact ⟨congrArg Prod.fst hplace, hclock⟩
  · intro c hc
    unfold leaving
    split <;> exact hc

/-- **A batch takes the time of its requests.** -/
theorem sendDue_clock {v : Int} {fuel : Nat}
    (hfuel : e.plan.totalSamples - n ≤ fuel) :
    Triple (fun c => c.place = (n, false) ∧ c.clock = v)
      (e.sendDue reading fuel)
      (fun _ c => c.clock =
        v + ((e.batch reading n).map fun i => (e.net i).duration).sum)
      (fun _ _ => True) := by
  induction fuel generalizing n v with
  | zero =>
      have hnone : e.batch reading n = [] := List.eq_nil_of_length_eq_zero
        (Nat.le_zero.mp ((batch_length_le reading n).trans hfuel))
      exact .pure fun c hc => by simp [hnone, hc.2]
  | succ fuel ih =>
      refine .get fun c hc => .runIf (fun hdue => ?_) fun hdue => ?_
      · rw [show c.sentCount = n from congrArg Prod.fst hc.1] at hdue
        refine .bind (Q := fun _ c => c.place = (n + 1, false) ∧
          c.clock = v + (e.net n).duration)
          (((sendOne_place n).and sendOne_clock).mono ?_
            (fun _ _ h => h) fun _ _ _ => trivial) fun _ =>
          (ih (n := n + 1) (by omega)).mono (fun _ h => h) ?_ fun _ _ h => h
        · rintro s rfl
          exact ⟨hc.1, hc⟩
        · intro _ s hs
          rw [hs, batch_of_due hdue, List.map_cons, List.sum_cons]
          omega
      · rw [show c.sentCount = n from congrArg Prod.fst hc.1] at hdue
        rintro s rfl
        simp [batch_of_not_due hdue, hc.2]

/-- What comes behind a batch is not due. -/
theorem not_due_behind (reading : Int) (n : Nat) :
    ¬ e.IsDue reading (n + (e.batch reading n).length) := by
  by_cases hdue : e.IsDue reading n
  · have hlt := hdue.1
    rw [batch_of_due hdue, List.length_cons, Nat.add_comm _ 1,
      ← Nat.add_assoc]
    exact not_due_behind reading (n + 1)
  · rwa [batch_of_not_due hdue]
termination_by e.plan.totalSamples - n

/-! ## When the timer expires -/

/-- The timer expires when the next request is due, or at once if it is too
late for that. -/
def Precise (e : Experiment) (c : Client) (alarm : Alarm) : Prop :=
  alarm.expires =
    max alarm.settime (c.expStartTime + e.deadlineAt c.core.sentCount)

/-- **`timer_handler` is precise** exactly if no time passes while it sends:
the timer runs for what was left at the reading of the clock, and that was
before the batch. -/
theorem timer_precise_iff {c c' : Client} {alarm : Alarm}
    (hidle : c.core.sending = false)
    (hunsent : c.core.sentCount < e.plan.totalSamples)
    (hexpired : c.armed = none) (hrun : e.timerHandler c = .ok () c')
    (harmed : c'.armed = some alarm) :
    e.Precise c' alarm ↔
      ∀ i ∈ e.batch (c.core.clock - c.expStartTime) c.core.sentCount,
        (e.net i).duration = 0 := by
  have hplace : c.core.place = (c.core.sentCount, false) := Prod.ext rfl hidle
  rw [timerHandler_eq hplace hunsent] at hrun
  cases hsend : e.sendDue (c.core.clock - c.expStartTime)
      (e.plan.totalSamples - c.core.sentCount + 1) c.core with
  | error stop t =>
      rw [hsend] at hrun
      cases hrun
  | ok a t =>
      rw [hsend] at hrun
      cases hrun
      have hplace' := (sendDue_place (by omega)).of_ok hplace hsend
      have hclock := (sendDue_clock (by omega)).of_ok ⟨hplace, rfl⟩ hsend
      have hbehind := not_due_behind (e := e)
        (c.core.clock - c.expStartTime) c.core.sentCount
      rw [show _ + _ = t.sentCount from (congrArg Prod.fst hplace').symm]
        at hbehind
      have hsome : t.sending = false ∧ t.sentCount < e.plan.totalSamples := by
        by_contra hnone
        rw [handled, if_neg hnone, hexpired] at harmed
        cases harmed
      rw [handled, if_pos hsome] at harmed
      cases harmed
      have hlater : c.core.clock - c.expStartTime <
          e.deadlineAt t.sentCount := by
        by_contra hle
        exact hbehind ⟨hsome.2, by omega⟩
      have hnone : ((e.batch (c.core.clock - c.expStartTime)
          c.core.sentCount).map fun i => (e.net i).duration).sum = 0 ↔
          ∀ i ∈ e.batch (c.core.clock - c.expStartTime) c.core.sentCount,
            (e.net i).duration = 0 := by
        rw [List.sum_eq_zero_iff_forall_eq_nat]
        exact List.forall_mem_map
      rw [← hnone]
      show t.clock + (_ / nsec * nsec + (_ - _ / nsec * nsec)) =
        max t.clock (c.expStartTime + e.deadlineAt t.sentCount) ↔ _
      generalize (_ : Int) / nsec * nsec = q
      omega

/-- Two requests, a microsecond apart; to send one takes `took`
nanoseconds. -/
private def coupleTaking (took : Nat) : Experiment where
  cfg := {}
  plan := .measuring 0 [1000]
  net := fun _ => ⟨[], 1, took, false⟩
  beyond := fun _ => 0

theorem timer_precise_iff_couple : ∃ c' alarm,
    (coupleTaking 0).timerHandler (new 0) = .ok () c' ∧
      c'.armed = some alarm ∧ (coupleTaking 0).Precise c' alarm :=
  ⟨_, _, rfl, rfl, (timer_precise_iff (e := coupleTaking 0) (c := new 0) rfl
    (by decide) rfl rfl rfl).mpr (by decide)⟩

/-- A request that takes ten nanoseconds. -/
theorem not_timer_precise : ∃ c' alarm,
    (coupleTaking 10).timerHandler (new 0) = .ok () c' ∧
      c'.armed = some alarm ∧ alarm.expires = 1010 ∧
      c'.expStartTime + (coupleTaking 10).deadlineAt c'.core.sentCount =
        1000 ∧
      ¬ (coupleTaking 10).Precise c' alarm :=
  ⟨_, _, rfl, rfl, by decide, by decide, by
    unfold Precise
    decide⟩

/-! ## Which missed sends are counted -/

theorem missedThreshold_eq (h : e.cfg.missedWindowUs.toNat * 1000 < 2 ^ 63) :
    e.missedThreshold = -(e.cfg.missedWindowUs.toNat * 1000) := by
  have hint : e.missedThreshold =
      (-e.cfg.missedWindowUs.toBitVec * 1000#64).toInt := rfl
  have hnat : e.cfg.missedWindowUs.toBitVec.toNat =
      e.cfg.missedWindowUs.toNat := rfl
  rw [hint, BitVec.toInt_eq_toNat_bmod, BitVec.toNat_mul, BitVec.toNat_neg,
    hnat]
  simp only [BitVec.toNat_ofNat, Int.bmod]
  omega

/-- A request that was sent too long after its deadline. -/
def late (e : Experiment) (due : Due) : Bool :=
  decide (e.cfg.missedWindowUs.toNat * 1000 < due.late)

/-- One of those that was not compared with the threshold. -/
def overlooked (e : Experiment) (due : Due) : Bool :=
  e.late due && !due.checked

theorem missed_eq (h : e.cfg.missedWindowUs.toNat * 1000 < 2 ^ 63) (due : Due) :
    e.missed due = (e.late due && due.checked) := by
  rw [missed, late, missedThreshold_eq h, Bool.and_comm]
  congr 1
  exact decide_eq_decide.mpr neg_lt_neg_iff

/-- A late request is counted or overlooked. -/
theorem countP_late (h : e.cfg.missedWindowUs.toNat * 1000 < 2 ^ 63)
    (dues : List Due) :
    dues.countP e.missed + dues.countP e.overlooked = dues.countP e.late := by
  induction dues with
  | nil => rfl
  | cons due dues ih =>
      rw [List.countP_cons, List.countP_cons, List.countP_cons, ← ih,
        missed_eq h, overlooked]
      cases e.late due <;> cases due.checked <;> simp <;> omega

/-- Nothing is overlooked where everything is compared. -/
theorem countP_overlooked_checked (reading : Int) (n m : Nat) :
    (e.newDues reading (fun _ => true) n m).countP e.overlooked = 0 := by
  refine List.countP_eq_zero.mpr fun due hmem => ?_
  obtain ⟨i, -, rfl⟩ := List.mem_map.mp hmem
  simp [overlooked]

/-- Being late has nothing to do with being compared. -/
theorem late_unchecked (reading : Int) (checked : Nat → Bool) (n m : Nat) :
    (e.newDues reading checked n m).countP e.late =
      (e.newDues reading (fun _ => true) n m).countP e.late := by
  rw [newDues, newDues, List.countP_map, List.countP_map]
  rfl

/-- `timer_handler` overlooks at most the first request of a call. -/
theorem countP_overlooked_first (reading : Int) (n m : Nat) :
    (e.newDues reading (fun i => decide (n < i)) n m).countP e.overlooked =
      if n < m ∧ e.cfg.missedWindowUs.toNat * 1000 <
        reading - e.deadlineAt n then 1 else 0 := by
  by_cases hlt : n < m
  · rw [newDues_cons reading (fun _ => true) hlt (by simp +contextual),
      List.countP_cons, countP_overlooked_checked]
    simp [overlooked, late, hlt]
  · rw [newDues, Nat.sub_eq_zero_of_le (Nat.not_lt.mp hlt),
      if_neg fun h => hlt h.1]
    rfl

/-- The first request of a call is sent if it is due. -/
theorem sendDue_begun (reading : Int) {c : Core} {fuel : Nat}
    (hplace : c.place = (n, false)) (hfuel : e.plan.totalSamples - n ≤ fuel) :
    n < (after (e.sendDue reading fuel c)).begun ↔ e.IsDue reading n := by
  have hlen : 0 < (e.batch reading n).length ↔ e.IsDue reading n := by
    by_cases hdue : e.IsDue reading n
    · exact iff_of_true (by simp [batch_of_due hdue]) hdue
    · exact iff_of_false (by simp [batch_of_not_due hdue]) hdue
  cases hrun : e.sendDue reading fuel c with
  | ok a t =>
      have hplace' := (sendDue_place hfuel).of_ok hplace hrun
      have hbegun := begun_of_idle (congrArg Prod.snd hplace')
      have hcount : t.sentCount = _ := congrArg Prod.fst hplace'
      rw [after_ok]
      omega
  | error stop t =>
      obtain ⟨hsending, hge, hlt⟩ := (sendDue_place hfuel).of_error hplace hrun
      have hbegun : t.begun = t.sentCount + 1 :=
        begun_of_place (Prod.ext rfl hsending)
      rw [after_error]
      omega

/-- **The two timers count alike** exactly if the first request of the call
is not late already. -/
theorem missedSend_agree_iff {c : Client}
    (hwindow : e.cfg.missedWindowUs.toNat * 1000 < 2 ^ 63)
    (hidle : c.core.sending = false)
    (hunsent : c.core.sentCount < e.plan.totalSamples) :
    (after (e.timerHandler c)).missedSend =
        (after (e.busyTimer c)).missedSend ↔
      c.core.clock - c.expStartTime - e.deadlineAt c.core.sentCount ≤
        e.cfg.missedWindowUs.toNat * 1000 := by
  have hplace : c.core.place = (c.core.sentCount, false) := Prod.ext rfl hidle
  rw [timerHandler_eq hplace hunsent, busyTimer_eq hplace, after_onState,
    after_onState]
  have hbegun := sendDue_begun (e := e) (c.core.clock - c.expStartTime) hplace
    (show _ ≤ e.plan.totalSamples - c.core.sentCount + 1 by omega)
  generalize after (e.sendDue _ _ c.core) = t at hbegun ⊢
  have hhandled := countP_late hwindow (e.newDues
    (c.core.clock - c.expStartTime) (fun i => decide (c.core.sentCount < i))
    c.core.sentCount t.begun)
  have hbusied := countP_late hwindow (e.newDues
    (c.core.clock - c.expStartTime) (fun _ => true) c.core.sentCount t.begun)
  rw [countP_overlooked_first, late_unchecked] at hhandled
  rw [countP_overlooked_checked] at hbusied
  have hdue : e.IsDue (c.core.clock - c.expStartTime) c.core.sentCount ↔
      e.deadlineAt c.core.sentCount ≤ c.core.clock - c.expStartTime :=
    and_iff_right hunsent
  rw [hdue] at hbegun
  show c.missedSend + List.countP _ (e.newDues _
    (fun i => decide (0 < 0 ∨ c.core.sentCount < i)) _ _) =
      c.missedSend + List.countP _ _ ↔ _
  simp only [Nat.lt_irrefl, false_or]
  split at hhandled <;> omega

end Experiment

end Mutated.Ports.Load
