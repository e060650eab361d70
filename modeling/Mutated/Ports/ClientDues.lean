import Mutated.Ports.ClientTotals

/-!
# What the timers send

## Main results

* `sends_due`: either timer sends what is due.
* `reads_in_bounds_iff`: which deadlines are read.
* `missedSend_iff`: which missed sends are counted.
-/

namespace Mutated.Ports.Load

open Mutated.Verified.Exec

namespace Experiment

variable {e : Experiment} {c : Client}

/-! ## Which deadlines are read -/

theorem run_notes (clock : Int) (calls : List Call) :
    Notes e (after (e.run calls (new clock))) := by
  cases hrun : e.run calls (new clock) with
  | ok a c => exact ((run_triple clock calls).of_ok rfl hrun).toNotes
  | error stop c => exact ((run_triple clock calls).of_error rfl hrun).toNotes

/-- `busy_timer` gets through the schedule: the deadlines of all requests that
are left have come, and their connections take them. -/
structure Completes (e : Experiment) (c : Client) : Prop where
  due : ∀ i, c.core.sentCount ≤ i → i < e.plan.totalSamples →
    e.deadlineAt i ≤ c.core.clock - c.expStartTime
  taken : returned (e.sendNext (e.plan.totalSamples - c.core.sentCount)
    c.core) = true

theorem busyTimer_completes (hready : Ready e c) :
    e.plan.totalSamples ≤ (after (e.busyTimer c)).core.sentCount ↔
      e.Completes c := by
  have hplace : c.core.place = (c.core.sentCount, false) :=
    Prod.ext rfl hready.idle.idle
  have hfuel := Nat.le_succ (e.plan.totalSamples - c.core.sentCount)
  have hlen := batch_length_le (e := e) (c.core.clock - c.expStartTime)
    c.core.sentCount
  have hall := batch_length_eq_iff (e := e) (c.core.clock - c.expStartTime)
    c.core.sentCount
  have hsent : c.core.sentCount ≤ e.plan.totalSamples :=
    hready.idle.begun.symm.trans_le hready.idle.begun_le
  rw [busyTimer_eq hplace, after_onState]
  show e.plan.totalSamples ≤ (after (e.sendDue _ _ c.core)).sentCount ↔ _
  cases hsend : e.sendDue (c.core.clock - c.expStartTime)
      (e.plan.totalSamples - c.core.sentCount + 1) c.core with
  | ok a t =>
      have hcount : t.sentCount = _ :=
        congrArg Prod.fst ((sendDue_place hfuel).of_ok hplace hsend)
      rw [after_ok]
      constructor
      · intro hle
        have hdue := hall.mp (by omega)
        refine ⟨hdue, ?_⟩
        rw [← sendDue_all hdue hfuel hplace, hsend]
        rfl
      · intro hcomplete
        have hbatch := hall.mpr hcomplete.due
        omega
  | error stop t =>
      obtain ⟨-, hge, hlt⟩ := (sendDue_place hfuel).of_error hplace hsend
      rw [after_error]
      refine iff_of_false (by omega) fun hcomplete => ?_
      have htaken := hcomplete.taken
      rw [← sendDue_all hcomplete.due hfuel hplace, hsend] at htaken
      cases htaken

/-- **A call gets through the schedule** only if it is one of `busy_timer`. -/
theorem call_completes (hready : Ready e c)
    (hbusy : e.cfg.useBusyTimer = true) (call : Call) :
    e.plan.totalSamples ≤ (after (e.call call c)).core.sentCount ↔
      e.plan.totalSamples ≤ c.core.sentCount ∨
        call = .busy ∧ e.Completes c := by
  have hskip : ∀ {c' : Client}, c'.core.place = c.core.place → call ≠ .busy →
      (e.plan.totalSamples ≤ c'.core.sentCount ↔
        e.plan.totalSamples ≤ c.core.sentCount ∨
          call = .busy ∧ e.Completes c) := by
    intro c' hplace hcall
    rw [show c'.core.sentCount = c.core.sentCount from congrArg Prod.fst hplace]
    exact (or_iff_left fun h => hcall h.1).symm
  cases call with
  | wait ns => exact hskip rfl (by simp)
  | runIo s =>
      refine hskip ?_ (by simp)
      show (after (onCore (e.serve s) c)).core.place = _
      rw [onCore, after_zoom]
      exact serve_keeps s c.core
  | timer =>
      have hfires : ¬ ∃ alarm ∈ c.armed, alarm.expires ≤ c.core.clock := by
        intro hfires
        have htimer := (hready.of_armed hfires).1
        rw [hbusy] at htimer
        cases htimer
      rw [call_timer_skip hfires]
      exact hskip rfl (by simp)
  | busy =>
      show _ ≤ (after (runIf (e.cfg.useBusyTimer = true) e.busyTimer
        c)).core.sentCount ↔ _
      rw [runIf, if_pos hbusy, busyTimer_completes hready]
      refine ⟨fun h => .inr ⟨rfl, h⟩, ?_⟩
      rintro (hsent | ⟨-, h⟩)
      · have hnone := Nat.sub_eq_zero_of_le hsent
        refine ⟨fun i hge hlt => absurd hlt (by omega), ?_⟩
        rw [hnone]
        rfl
      · exact h

/-- **A run gets through the schedule** in a call of `busy_timer`. -/
theorem runAll_completes (hbusy : e.cfg.useBusyTimer = true)
    (calls : List Call) : ∀ {c : Client}, Ready e c →
    (e.plan.totalSamples ≤ (after (runAll e.call calls c)).core.sentCount ↔
      e.plan.totalSamples ≤ c.core.sentCount ∨
        ∃ past rest c', calls = past ++ .busy :: rest ∧
          runAll e.call past c = .ok () c' ∧ e.Completes c') := by
  induction calls with
  | nil =>
      refine fun _ => (or_iff_left ?_).symm
      rintro ⟨past, rest, c', hcalls, -⟩
      exact List.append_ne_nil_of_right_ne_nil past (List.cons_ne_nil _ _)
        hcalls.symm
  | cons call calls ih =>
      intro c hready
      have hcall := call_completes hready hbusy call
      have hsplit : (∃ past rest c', call :: calls = past ++ .busy :: rest ∧
          runAll e.call past c = .ok () c' ∧ e.Completes c') ↔
          (call = .busy ∧ e.Completes c) ∨
            ∃ past rest c', calls = past ++ .busy :: rest ∧
              runAll e.call (call :: past) c = .ok () c' ∧
                e.Completes c' := by
        constructor
        · rintro ⟨past, rest, c', hcalls, hpast, h⟩
          cases past with
          | nil =>
              cases hpast
              cases hcalls
              exact .inl ⟨rfl, h⟩
          | cons first past =>
              cases hcalls
              exact .inr ⟨past, rest, c', rfl, hpast, h⟩
        · rintro (⟨rfl, h⟩ | ⟨past, rest, c', rfl, hpast, h⟩)
          · exact ⟨[], calls, c, rfl, rfl, h⟩
          · exact ⟨call :: past, rest, c', rfl, hpast, h⟩
      rw [hsplit, ← or_assoc, ← hcall]
      cases hrun : e.call call c with
      | error stop c' =>
          rw [show runAll e.call (call :: calls) c = .error stop c' from
            bind_of_error hrun]
          refine (or_iff_left ?_).symm
          rintro ⟨past, rest, c'', -, hpast, -⟩
          rw [show runAll e.call (call :: past) c = .error stop c' from
            bind_of_error hrun] at hpast
          cases hpast
      | ok a c' =>
          have hrest (calls : List Call) : runAll e.call (call :: calls) c =
              runAll e.call calls c' := bind_of_ok hrun
          simp only [hrest, after_ok]
          exact ih ((call_triple call).of_ok hready hrun)

/-- **No deadline behind the last one is read** exactly if the busy timer is
not used, or never gets through the schedule. -/
theorem reads_in_bounds_iff (clock : Int) (calls : List Call) :
    (∀ i ∈ (after (e.run calls (new clock))).reads,
        i < e.plan.deadlines.length) ↔
      (e.cfg.useBusyTimer = false ∨
        ¬ ∃ past rest c, calls = past ++ .busy :: rest ∧
          e.run past (new clock) = .ok () c ∧ e.Completes c) := by
  rw [e.plan.length_eq, (run_notes clock calls).reads]
  cases hbusy : e.cfg.useBusyTimer with
  | false => exact iff_of_true (.inl rfl) (.inl rfl)
  | true =>
      obtain ⟨c, hsetup, hnone⟩ : ∃ c,
          e.setupExperiment (new clock) = .ok () c ∧ c.core.sentCount = 0 :=
        ⟨_, congrFun (if_neg (by simp [hbusy])) _, rfl⟩
      have hready := (setupExperiment_triple clock).of_ok rfl hsetup
      have hrun (calls : List Call) : e.run calls (new clock) =
          runAll e.call calls c := bind_of_ok hsetup
      have hcompletes := runAll_completes hbusy calls hready
      have hpos := e.plan.total_pos
      rw [or_iff_right (by omega)] at hcompletes
      simp only [hrun, Bool.true_eq_false, false_or]
      rw [← hcompletes, Nat.not_le]

/-- Two requests, a microsecond apart. -/
private def coupleWith (cfg : Config) : Experiment where
  cfg := cfg
  plan := .measuring 0 [1000]
  net := fun _ => ⟨[], 1, 0, false⟩
  beyond := fun _ => 0

/-- `busy_timer` has sent the last request. -/
theorem not_reads_in_bounds :
    ∃ i ∈ (after ((coupleWith { useBusyTimer := true }).run
        [.wait 1000, .busy] (new 0))).reads,
      ¬ i < (coupleWith { useBusyTimer := true }).plan.deadlines.length := by
  decide

/-! ## What is sent at one reading of the clock -/

/-- The requests that are due and not sent yet. -/
def due (e : Experiment) (c : Client) : List Nat :=
  (List.range e.plan.totalSamples).filter fun i =>
    c.core.sentCount ≤ i ∧ e.deadlineAt i ≤ c.core.clock - c.expStartTime

/-- Of a sorted list, what is kept is a beginning. -/
theorem takeWhile_eq_filter {α : Type} {p : α → Bool} {l : List α}
    (h : l.Pairwise fun a b => p b = true → p a = true) :
    l.takeWhile p = l.filter p := by
  induction l with
  | nil => rfl
  | cons a l ih =>
      obtain ⟨hhead, htail⟩ := List.pairwise_cons.mp h
      by_cases ha : p a = true
      · rw [List.takeWhile_cons, if_pos ha, List.filter_cons, if_pos ha,
          ih htail]
      · rw [List.takeWhile_cons, if_neg ha, List.filter_cons, if_neg ha]
        refine (List.filter_eq_nil_iff.mpr fun b hb hp => ?_).symm
        exact ha (hhead b hb hp)

/-- Deadlines that are sorted. -/
theorem deadlineAt_mono (hsorted : e.plan.deadlines.Pairwise (· ≤ ·))
    {i j : Nat} (hij : i < j) (hj : j < e.plan.totalSamples) :
    e.deadlineAt i ≤ e.deadlineAt j := by
  rw [← e.plan.length_eq] at hj
  rw [deadlineAt, deadlineAt, List.getElem?_eq_getElem hj,
    List.getElem?_eq_getElem (hij.trans hj)]
  exact List.pairwise_iff_getElem.mp hsorted i j _ _ hij

theorem batch_eq_due (hsorted : e.plan.deadlines.Pairwise (· ≤ ·))
    (hle : c.core.sentCount ≤ e.plan.totalSamples) :
    e.batch (c.core.clock - c.expStartTime) c.core.sentCount = e.due c := by
  rw [batch, takeWhile_eq_filter, due, ← range_append_range' hle,
    List.filter_append]
  · have hsent : (List.range c.core.sentCount).filter (fun i =>
        decide (c.core.sentCount ≤ i ∧
          e.deadlineAt i ≤ c.core.clock - c.expStartTime)) = [] := by
      refine List.filter_eq_nil_iff.mpr fun i hi => ?_
      have hlt := List.mem_range.mp hi
      simp only [decide_eq_true_eq]
      omega
    rw [hsent, List.nil_append]
    refine List.filter_congr fun i hi => decide_eq_decide.mpr ?_
    exact (and_iff_right (List.mem_range'_1.mp hi).1).symm
  · refine (List.pairwise_lt_range' ..).imp_of_mem fun hi hj hij hdue => ?_
    have hj := List.mem_range'_1.mp hj
    have hmono := deadlineAt_mono hsorted hij (by omega)
    rw [decide_eq_true_eq] at hdue ⊢
    omega

/-- **A timer sends what is due**, each request once and in order, or a part
of it if the program ends before. -/
structure SendsDue (e : Experiment) (c : Client)
    (r : EStateM.Result Stop Client Unit) : Prop where
  part : sendsOf (after r).core.log <+:
    sendsOf c.core.log ++ (e.due c).map e.request
  all : (returned r = true ∨ ∃ c', r = .error .exit c') →
    sendsOf (after r).core.log =
      sendsOf c.core.log ++ (e.due c).map e.request

/-- What is due comes behind what was sent. -/
theorem sends_append_due (hsorted : e.plan.deadlines.Pairwise (· ≤ ·))
    (hidle : Idle e c.core) :
    sendsOf c.core.log ++ (e.due c).map e.request =
      (List.range (c.core.sentCount + (e.batch
        (c.core.clock - c.expStartTime) c.core.sentCount).length)).map
        e.request := by
  have hbegun := hidle.begun
  rw [← batch_eq_due hsorted (hbegun.symm.trans_le hidle.begun_le),
    hidle.sends, hbegun, batch_eq_range', ← List.map_append,
    List.length_range']
  have happend := range_append_range' (Nat.le_add_right c.core.sentCount
    (e.batch (c.core.clock - c.expStartTime) c.core.sentCount).length)
  rw [Nat.add_sub_cancel_left] at happend
  rw [happend]

theorem sendsDue_of_core (hsorted : e.plan.deadlines.Pairwise (· ≤ ·))
    (hidle : Idle e c.core) {f : Core → Client} (hf : ∀ t, (f t).core = t) :
    SendsDue e c (onState f (e.sendDue (c.core.clock - c.expStartTime)
      (e.plan.totalSamples - c.core.sentCount + 1) c.core)) := by
  have hplace : c.core.place = (c.core.sentCount, false) :=
    Prod.ext rfl hidle.idle
  have hgoal := sends_append_due hsorted hidle
  cases hsend : e.sendDue (c.core.clock - c.expStartTime)
      (e.plan.totalSamples - c.core.sentCount + 1) c.core with
  | ok a t =>
      have hidle' := (sendDue_triple _).of_ok hidle hsend
      have hplace' := (sendDue_place (Nat.le_succ _)).of_ok hplace hsend
      have hcount : t.sentCount = _ := congrArg Prod.fst hplace'
      have hsends : sendsOf (f t).core.log =
          sendsOf c.core.log ++ (e.due c).map e.request := by
        rw [hf, hidle'.sends, hidle'.begun, hcount, hgoal]
      exact ⟨hsends ▸ List.prefix_refl _, fun _ => hsends⟩
  | error stop t =>
      have hstopped := (sendDue_triple _).of_error hidle hsend
      obtain ⟨hsending, -, hlt⟩ :=
        (sendDue_place (Nat.le_succ _)).of_error hplace hsend
      have hbegun : t.begun = t.sentCount + 1 :=
        begun_of_place (Prod.ext rfl hsending)
      have hsends : sendsOf (f t).core.log =
          (List.range t.begun).map e.request := by
        rw [hf, hstopped.sending.sends]
      refine ⟨?_, fun hall => ?_⟩
      · rw [hgoal]
        refine hsends ▸ List.IsPrefix.map e.request ⟨_, range_append_range' ?_⟩
        omega
      · have hexit : stop = .exit := by
          rcases hall with hret | ⟨c', hexit⟩
          · cases hret
          · cases hexit
            rfl
        subst hexit
        have hfinished : Finished e t := by
          cases hstopped with
          | exit h => exact h
          | halfPrinted h hstop => exact h
        have htotal := hfinished.all.1
        have hle := batch_length_le (e := e)
          (c.core.clock - c.expStartTime) c.core.sentCount
        have hsent : c.core.sentCount ≤ e.plan.totalSamples :=
          hidle.begun.symm.trans_le hidle.begun_le
        show sendsOf (f t).core.log = _
        rw [hsends, hgoal]
        congr 2
        omega

/-- **Both timers send the same at any time of any run**: what is due and not
sent yet, so that no request is sent twice.  The timer is left armed as long
as there is something to send. -/
theorem sends_due (hsorted : e.plan.deadlines.Pairwise (· ≤ ·)) (clock : Int)
    (calls : List Call) :
    ((sendsOf (after (e.run calls (new clock))).core.log).map
        (·.index)).Nodup ∧
      ∀ c, e.run calls (new clock) = .ok () c →
        c.core.sentCount < e.plan.totalSamples →
        SendsDue e c (e.timerHandler c) ∧ SendsDue e c (e.busyTimer c) ∧
          (after (e.timerHandler c)).core = (after (e.busyTimer c)).core ∧
          ∀ c', e.timerHandler { c with armed := none } = .ok () c' →
            (c'.armed.isSome ↔ c'.core.sentCount < e.plan.totalSamples) := by
  constructor
  · rw [(run_sending clock calls).sends, List.map_map]
    show ((List.range _).map id).Nodup
    rw [List.map_id]
    exact List.nodup_range
  · intro c hrun hunsent
    have hready := (run_triple clock calls).of_ok rfl hrun
    have hplace : c.core.place = (c.core.sentCount, false) :=
      Prod.ext rfl hready.idle.idle
    rw [timerHandler_eq hplace hunsent, busyTimer_eq hplace]
    refine ⟨sendsDue_of_core hsorted hready.idle fun _ => rfl,
      sendsDue_of_core hsorted hready.idle fun _ => rfl, ?_, ?_⟩
    · rw [after_onState, after_onState]
      rfl
    · intro c' hcall
      rw [timerHandler_eq (c := { c with armed := none }) hplace hunsent]
        at hcall
      cases hsend : e.sendDue (c.core.clock - c.expStartTime)
          (e.plan.totalSamples - c.core.sentCount + 1) c.core with
      | error stop t =>
          rw [hsend] at hcall
          cases hcall
      | ok a t =>
          rw [hsend] at hcall
          cases hcall
          exact handled_armed rfl
            ((sendDue_triple _).of_ok hready.idle hsend).idle _

/-- The first is sent at the start, the second a microsecond later. -/
theorem sends_due_couple :
    ∃ c, (coupleWith {}).run [.wait 1000] (new 0) = .ok () c ∧
      (coupleWith {}).due c = [1] ∧
      SendsDue (coupleWith {}) c ((coupleWith {}).timerHandler c) :=
  ⟨_, rfl, by decide, ((sends_due (e := coupleWith {})
    (by decide) 0 [.wait 1000]).2 _ rfl (by decide)).1⟩

/-! ## Which missed sends are counted -/

section Model

variable (e : Experiment)

/-- The first request that `timer_handler` would send is late. -/
def StartsLate (c : Client) : Prop :=
  e.cfg.missedWindowUs.toNat * 1000 <
    c.core.clock - c.expStartTime - e.deadlineAt c.core.sentCount

instance (c : Client) : Decidable (e.StartsLate c) :=
  inferInstanceAs (Decidable (_ < _))

/-- The call is one of `timer_handler`, and its first request is late. -/
def CallsLate (c : Client) : Call → Prop
  | .timer => (∃ alarm ∈ c.armed, alarm.expires ≤ c.core.clock) ∧ e.StartsLate c
  | _ => False

instance (c : Client) : ∀ call, Decidable (e.CallsLate c call)
  | .timer => inferInstanceAs (Decidable (_ ∧ _))
  | .wait _ => inferInstanceAs (Decidable False)
  | .runIo _ => inferInstanceAs (Decidable False)
  | .busy => inferInstanceAs (Decidable False)

/-- How many calls of a run start late. -/
def lateCalls : List Call → Client → Nat
  | [], _ => 0
  | call :: calls, c =>
      (if e.CallsLate c call then 1 else 0) +
        match e.call call c with
        | .ok _ c' => lateCalls calls c'
        | .error _ _ => 0

/-- How many calls of `timer_handler` start late, from the start of the
experiment on. -/
def lateStarts (clock : Int) (calls : List Call) : Nat :=
  let c : Client := { new clock with expStartTime := clock }
  (if e.cfg.useBusyTimer = false ∧ e.StartsLate c then 1 else 0) +
    match e.setupExperiment (new clock) with
    | .ok _ c' => e.lateCalls calls c'
    | .error _ _ => 0

end Model

theorem timerHandler_overlooked (hidle : c.core.sending = false)
    (hunsent : c.core.sentCount < e.plan.totalSamples) :
    (after (e.timerHandler c)).dues.countP e.overlooked =
      c.dues.countP e.overlooked + if e.StartsLate c then 1 else 0 := by
  have hplace : c.core.place = (c.core.sentCount, false) := Prod.ext rfl hidle
  have hbegun := sendDue_begun (e := e) (c.core.clock - c.expStartTime) hplace
    (Nat.le_succ _)
  rw [timerHandler_eq hplace hunsent, after_onState]
  show (c.dues ++
    e.newDues _ (fun i => decide (0 < 0 ∨ _ < i)) _ _).countP _ = _
  simp only [Nat.lt_irrefl, false_or]
  rw [List.countP_append, countP_overlooked_first]
  refine congrArg (_ + ·) (if_congr ?_ rfl rfl)
  rw [hbegun, StartsLate]
  exact ⟨fun h => h.2, fun h => ⟨⟨hunsent, by omega⟩, h⟩⟩

/-- **A call overlooks** its first request, if it starts late. -/
theorem call_overlooked (hready : Ready e c) (call : Call) :
    (after (e.call call c)).dues.countP e.overlooked =
      c.dues.countP e.overlooked + if e.CallsLate c call then 1 else 0 := by
  cases call with
  | wait ns => rfl
  | runIo s =>
      show (after (onCore (e.serve s) c)).dues.countP _ = c.dues.countP _
      rw [onCore, after_zoom]
  | timer =>
      by_cases hfires : ∃ alarm ∈ c.armed, alarm.expires ≤ c.core.clock
      · obtain ⟨htimer, hunsent⟩ := hready.of_armed hfires
        rw [call_timer htimer hfires, timerHandler_overlooked
          (c := { c with armed := none }) hready.idle.idle hunsent]
        exact congrArg (_ + ·) (if_congr (and_iff_right hfires).symm rfl rfl)
      · rw [call_timer_skip hfires, if_neg fun h => hfires h.1]
        rfl
  | busy =>
      show (after (runIf (e.cfg.useBusyTimer = true) e.busyTimer c)).dues.countP
        _ = c.dues.countP _
      by_cases hbusy : e.cfg.useBusyTimer = true
      · rw [runIf, if_pos hbusy, busyTimer_eq (Prod.ext rfl hready.idle.idle),
          after_onState]
        show (c.dues ++ e.newDues _ (fun _ => true) _ _).countP _ = _
        rw [List.countP_append, countP_overlooked_checked, Nat.add_zero]
      · rw [runIf, if_neg hbusy]
        rfl

/-- **A run overlooks** as many requests as calls start late. -/
theorem runAll_overlooked (calls : List Call) : ∀ {c : Client}, Ready e c →
    (after (runAll e.call calls c)).dues.countP e.overlooked =
      c.dues.countP e.overlooked + e.lateCalls calls c := by
  induction calls with
  | nil => exact fun _ => rfl
  | cons call calls ih =>
      intro c hready
      have hcall := call_overlooked hready call
      rw [lateCalls, ← Nat.add_assoc, ← hcall]
      cases hrun : e.call call c with
      | error stop c' =>
          rw [show runAll e.call (call :: calls) c = .error stop c' from
            bind_of_error hrun]
          rfl
      | ok a c' =>
          rw [show runAll e.call (call :: calls) c = runAll e.call calls c' from
            bind_of_ok hrun]
          exact ih ((call_triple call).of_ok hready hrun)

theorem run_overlooked (clock : Int) (calls : List Call) :
    (after (e.run calls (new clock))).dues.countP e.overlooked =
      e.lateStarts clock calls := by
  have hsetup : (after (e.setupExperiment (new clock))).dues.countP
      e.overlooked =
        if e.cfg.useBusyTimer = false ∧
          e.StartsLate { new clock with expStartTime := clock } then 1
        else 0 := by
    show (after (runIf (e.cfg.useBusyTimer = false) e.timerHandler
      { new clock with expStartTime := clock })).dues.countP _ = _
    by_cases htimer : e.cfg.useBusyTimer = false
    · rw [runIf, if_pos htimer, timerHandler_overlooked rfl e.plan.total_pos]
      refine (Nat.zero_add _).trans (if_congr ?_ rfl rfl)
      exact (and_iff_right htimer).symm
    · rw [runIf, if_neg htimer, if_neg fun h => htimer h.1]
      rfl
  rw [lateStarts, ← hsetup]
  cases hrun : e.setupExperiment (new clock) with
  | error stop c =>
      rw [show e.run calls (new clock) = .error stop c from bind_of_error hrun]
      rfl
  | ok a c =>
      rw [show e.run calls (new clock) = runAll e.call calls c from
        bind_of_ok hrun]
      exact runAll_overlooked calls
        ((setupExperiment_triple clock).of_ok rfl hrun)

/-- **Missed sends are counted** in every run in which no call of
`timer_handler` starts late, and only there.  The two timers count alike
exactly if the first request of the call is not late. -/
theorem missedSend_iff (hwindow : e.cfg.missedWindowUs.toNat * 1000 < 2 ^ 63)
    (clock : Int) (calls : List Call) :
    (after (e.run calls (new clock))).dues.map (·.index) =
        List.range (after (e.run calls (new clock))).core.begun ∧
      ((after (e.run calls (new clock))).missedSend =
          (after (e.run calls (new clock))).dues.countP e.late ↔
        e.lateStarts clock calls = 0) ∧
      ∀ c, e.run calls (new clock) = .ok () c →
        c.core.sentCount < e.plan.totalSamples →
        ((after (e.timerHandler c)).missedSend =
          (after (e.busyTimer c)).missedSend ↔ ¬ e.StartsLate c) := by
  have hnotes := run_notes (e := e) clock calls
  have hmissed := hnotes.missed hwindow
  rw [run_overlooked] at hmissed
  refine ⟨hnotes.dues, by omega, fun c hrun hunsent => ?_⟩
  rw [missedSend_agree_iff hwindow
    ((run_triple clock calls).of_ok rfl hrun).idle.idle hunsent, StartsLate,
    Int.not_lt]

/-- Nobody is late. -/
theorem missedSend_iff_couple :
    (coupleWith {}).cfg.missedWindowUs.toNat * 1000 < 2 ^ 63 ∧
      (coupleWith {}).lateStarts 0 [.wait 1000, .timer] = 0 ∧
      (after ((coupleWith {}).run [.wait 1000, .timer] (new 0))).missedSend =
        (after ((coupleWith {}).run [.wait 1000, .timer]
          (new 0))).dues.countP (coupleWith {}).late :=
  ⟨by decide, by decide, (missedSend_iff (by decide) 0
    [.wait 1000, .timer]).2.1.mpr (by decide)⟩

/-- The timer is handled 199 microseconds after the second deadline, and the
threshold is 100 microseconds. -/
theorem not_missedSend_late :
    (after ((coupleWith {}).run [.wait 200000, .timer]
        (new 0))).missedSend = 0 ∧
      (after ((coupleWith {}).run [.wait 200000, .timer]
        (new 0))).dues.countP (coupleWith {}).late = 1 ∧
      (after ((coupleWith { useBusyTimer := true }).run
        [.busy, .wait 200000, .busy] (new 0))).missedSend = 1 := by
  decide

end Experiment

end Mutated.Ports.Load
