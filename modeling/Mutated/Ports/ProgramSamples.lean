import Mutated.Ports.ClientAccounting
import Mutated.Ports.GeneratorLedger
import Mutated.Ports.Program
import Mutated.Verified.Simulation

/-!
# Samples that are told in a row

What a generator tells during a call, the network of an experiment does with
one response after another: `record_sample` counts the same, ends the program
at the same response, and releases a reference each time.

The ghost state of the experiment names the request that a response is for.
The program has no such thing, and `Like` leaves it out.

## Main results

`tellAll_simulates` compares the samples of a call with the responses.
-/

namespace Mutated.Ports

open Mutated.Verified.Exec
open Mutated.Ports.Load
open Mutated.Ports.Lifetime (Cell)

namespace Program

/-! ## The counters without their ghost state -/

/-- The counters alone. -/
def bareCore (c : Core) : Core :=
  { c with pending := [], sending := false, log := [] }

/-- The program's counters are those of the experiment. -/
def Like (c a : Core) : Prop := bareCore c = bareCore a

theorem Like.map {c a : Core} (h : Like c a) {f : Core → Core}
    (hf : ∀ c, bareCore (f c) = bareCore (f (bareCore c))) :
    Like (f c) (f a) := by
  rw [Like, hf c, show bareCore c = bareCore a from h, ← hf a]

/-- The experiment's ghost state changes. -/
theorem Like.ghost {c a a' : Core} (h : Like c a)
    (hsame : bareCore a' = bareCore a) : Like c a' := h.trans hsame.symm

/-- What does not depend on the ghost state is the same. -/
theorem Like.reads {c a : Core} (h : Like c a) {β : Type} (f : Core → β)
    (hf : ∀ c, f (bareCore c) = f c) : f c = f a := by
  rw [← hf c, show bareCore c = bareCore a from h, hf a]

theorem Like.results {c a : Core} (h : Like c a) : c.results = a.results :=
  h.reads Core.results fun _ => rfl

theorem Like.sentCount {c a : Core} (h : Like c a) :
    c.sentCount = a.sentCount := h.reads Core.sentCount fun _ => rfl

theorem Like.rcvdCount {c a : Core} (h : Like c a) :
    c.rcvdCount = a.rcvdCount := h.reads Core.rcvdCount fun _ => rfl

theorem Like.measureCount {c a : Core} (h : Like c a) :
    c.measureCount = a.measureCount := h.reads Core.measureCount fun _ => rfl

theorem Like.clock {c a : Core} (h : Like c a) : c.clock = a.clock :=
  h.reads Core.clock fun _ => rfl

/-- The call does not look at the ghost state. -/
def Blind {α : Type} (x : EStateM Stop Core α) : Prop :=
  ∀ c a, Like c a → Agree id (fun _ => Like) (fun _ => Like) (x c) (x a)

namespace Blind

variable {α β : Type} {x : EStateM Stop Core α} {f : α → EStateM Stop Core β}

theorem pure (a : α) : Blind (pure a : EStateM Stop Core α) :=
  fun _ _ h => .ok h

theorem throw (stop : Stop) : Blind (throw stop : EStateM Stop Core α) :=
  fun _ _ h => .error h

theorem modify {f : Core → Core}
    (hf : ∀ c, bareCore (f c) = bareCore (f (bareCore c))) :
    Blind (modify f : EStateM Stop Core PUnit) :=
  fun _ _ h => .ok (h.map hf)

theorem bind (hx : Blind x) (hf : ∀ a, Blind (f a)) : Blind (x >>= f) :=
  fun c a h => (hx c a h).bind (fun _ _ _ _ h => h)
    fun v _ _ _ h => hf v _ _ h

/-- A look at the counters. -/
theorem get {g : Core → EStateM Stop Core β} (hg : ∀ c, Blind (g c))
    (hsame : ∀ c a, Like c a → g c = g a) : Blind (get >>= g) := by
  intro c a h
  have hboth := hg c c a h
  show Agree _ _ _ (g c c) (g a a)
  rw [← hsame c a h]
  exact hboth

theorem runIf {p : Prop} [Decidable p] {x : EStateM Stop Core Unit}
    (hx : Blind x) : Blind (runIf p x) := by
  by_cases h : p
  · rw [Mutated.Verified.Exec.runIf, if_pos h]
    exact hx
  · rw [Mutated.Verified.Exec.runIf, if_neg h]
    exact pure ()

end Blind

theorem runningTime_blind : Blind Core.runningTime := by
  refine .get (fun c => ?_) fun c a h => ?_
  · cases c.results.runningTime with
    | none => exact .throw _
    | some t => exact .pure t
  · rw [h.results]

variable {e : Experiment}

theorem endMeasurements_blind : Blind Experiment.endMeasurements :=
  .bind (.modify fun _ => rfl) fun _ => .bind runningTime_blind fun _ =>
    .modify fun _ => rfl

/-- **The two halves of `record_sample`** look at the counters only. -/
theorem addSample_blind (comp : Completion) : Blind (e.addSample comp) :=
  .bind (.modify fun _ => rfl) fun _ =>
    .get (fun _ => .runIf endMeasurements_blind) fun c a h => by
      rw [h.measureCount]

theorem printSummary_blind : Blind e.printSummary := by
  refine .bind (.modify fun _ => rfl) fun _ => ?_
  by_cases hraw : e.cfg.machineReadable = true
  · rw [if_pos hraw]
    exact .modify fun _ => rfl
  · rw [if_neg hraw]
    refine .get (fun c => ?_) fun c a h => ?_
    · by_cases hnone : c.results.service.size = 0
      · rw [if_pos hnone]
        exact .throw _
      · rw [if_neg hnone]
        exact .bind runningTime_blind fun _ => .pure _
    · rw [h.results]

theorem countReceived_blind : Blind e.countReceived :=
  .bind (.modify fun _ => rfl) fun _ =>
    .get (fun _ => .runIf (.bind printSummary_blind fun _ => .throw _))
      fun c a h => by rw [h.rcvdCount]

theorem recordSample_blind (measure : Bool) (comp : Completion) :
    Blind (e.recordSample measure comp) :=
  .bind (.runIf (addSample_blind comp)) fun _ => countReceived_blind

/-! ## What a response changes -/

/-- The requests that wait, the samples, and the number of responses. -/
def tally (c : Core) : (List Load.Request × List UInt64) × Nat :=
  ((c.pending, c.results.service.samples), c.rcvdCount)

theorem runningTime_tally : Keeps tally Core.runningTime :=
  keeps_get fun c => by
    cases c.results.runningTime with
    | none => exact keeps_throw _
    | some t => exact keeps_pure t

theorem endMeasurements_tally : Keeps tally Experiment.endMeasurements :=
  keeps_bind (keeps_modify fun _ => rfl) fun _ =>
    keeps_bind runningTime_tally fun _ => keeps_modify fun _ => rfl

theorem printSummary_tally : Keeps tally e.printSummary := by
  refine keeps_bind (keeps_modify fun _ => rfl) fun _ => ?_
  by_cases hraw : e.cfg.machineReadable = true
  · rw [if_pos hraw]
    exact keeps_modify fun _ => rfl
  · rw [if_neg hraw]
    apply keeps_get
    intro c
    by_cases hnone : c.results.service.size = 0
    · rw [if_pos hnone]
      exact keeps_throw _
    · rw [if_neg hnone]
      exact keeps_bind runningTime_tally fun _ => keeps_pure _

theorem addSample_tally (comp : Completion) (c : Core) :
    Triple (· = c) (e.addSample comp)
      (fun _ a => tally a = tally (c.addSample comp))
      fun _ a => tally a = tally (c.addSample comp) := by
  have hadd : Triple (· = c) (modify (Core.addSample comp) :
      EStateM Stop Core PUnit)
      (fun _ a => tally a = tally (c.addSample comp))
      fun _ a => tally a = tally (c.addSample comp) :=
    .modify fun _ h => by rw [h]
  exact hadd.bind fun _ => .look fun _ =>
    .runIf (fun _ => .of_keeps endMeasurements_tally _) fun _ _ h => h

theorem countReceived_tally (v : List Load.Request × List UInt64) (n : Nat) :
    Triple (fun a => tally a = (v, n)) e.countReceived
      (fun _ a => tally a = (v, n + 1)) fun _ a => tally a = (v, n + 1) := by
  have hcount : Triple (fun a => tally a = (v, n))
      (modify Core.received : EStateM Stop Core PUnit)
      (fun _ a => tally a = (v, n + 1)) fun _ a => tally a = (v, n + 1) := by
    apply Triple.modify
    intro a h
    obtain ⟨hfirst, hcount⟩ := Prod.ext_iff.mp h
    exact Prod.ext hfirst (congrArg (· + 1) hcount)
  refine hcount.bind fun _ => .look fun _ => .runIf (fun _ => ?_) fun _ _ h => h
  exact (Triple.of_keeps printSummary_tally _).bind fun _ =>
    .throw fun _ h => h

/-- What was measured of some samples. -/
def measured (ds : List Sample) : List UInt64 :=
  (ds.filter (·.measure)).map fun d => .ofNat d.serviceUs

theorem measured_append (ds ds' : List Sample) :
    measured (ds ++ ds') = measured ds ++ measured ds' := by
  simp [measured]

/-- **A response** is counted, unless the program ended before, and its sample
is kept when it is measured. -/
theorem recordSample_tally (d : Sample) {comp : Completion}
    (hcomp : comp.serviceUs = .ofNat d.serviceUs) (c : Core) :
    Ends (fun _ a => tally a = ((c.pending,
        c.results.service.samples ++ measured [d]), c.rcvdCount + 1))
      (fun _ a => (tally a).1 = (c.pending,
        c.results.service.samples ++ measured [d]))
      (e.recordSample d.measure comp c) := by
  have hsample : Triple (· = c) (runIf d.measure (e.addSample comp))
      (fun _ a => tally a = ((c.pending,
        c.results.service.samples ++ measured [d]), c.rcvdCount))
      fun _ a => tally a = ((c.pending,
        c.results.service.samples ++ measured [d]), c.rcvdCount) := by
    apply Triple.runIf
    · intro hm
      have hadded : tally (c.addSample comp) =
          ((c.pending, c.results.service.samples ++ measured [d]),
            c.rcvdCount) := by
        rw [measured, List.filter_cons_of_pos hm, List.map_cons, ← hcomp]
        rfl
      rw [← hadded]
      exact addSample_tally comp c
    · rintro hm _ rfl
      rw [measured, List.filter_cons_of_neg hm]
      simp [tally]
  have hfirst (v : List Load.Request × List UInt64) (n : Nat) (a : Core)
      (h : tally a = (v, n)) : (tally a).1 = v := congrArg Prod.fst h
  have hweak : Triple (· = c) (e.recordSample d.measure comp)
      (fun _ a => tally a = ((c.pending,
        c.results.service.samples ++ measured [d]), c.rcvdCount + 1))
      fun _ a => (tally a).1 = (c.pending,
        c.results.service.samples ++ measured [d]) :=
    (hsample.mono (fun _ h => h) (fun _ _ h => h)
      fun _ _ h => hfirst _ _ _ h).bind fun _ =>
      (countReceived_tally _ _).mono (fun _ h => h) (fun _ _ h => h)
        fun _ _ h => hfirst _ _ _ h
  exact hweak c rfl

/-! ## The callback of the program -/

/-- What `record_sample` does to the counters. -/
def respond (u : Setting) (d : Sample) : EStateM Stop Core Unit := do
  let c ← get
  modify (Core.advance (u.took c.rcvdCount))
  u.offline.recordSample d.measure
    ⟨0, 0, .ofNat d.queueUs, .ofNat d.serviceUs, .ofNat d.waitUs,
      .ofNat d.bytes⟩

theorem runningTime_throws {P : Stop → Prop} (hearly : P tooEarly) :
    Throws P Core.runningTime := by
  refine throws_bind throws_get fun c => ?_
  cases c.results.runningTime with
  | none => exact throws_throw hearly
  | some t => exact throws_pure t

/-- The callback does not fail as a connection does. -/
theorem respond_throws (d : Sample) :
    Throws (· ≠ Stop.connection) (respond u d) := by
  have hend : Throws (· ≠ Stop.connection) Experiment.endMeasurements :=
    throws_bind (throws_modify _) fun _ =>
      throws_bind (runningTime_throws nofun) fun _ => throws_modify _
  have hprint : Throws (· ≠ Stop.connection) u.offline.printSummary :=
    throws_bind (throws_modify _) fun _ => throws_ite (throws_modify _) <|
      throws_bind throws_get fun _ => throws_ite (throws_throw nofun) <|
        throws_bind (runningTime_throws nofun) fun _ => throws_pure ()
  refine throws_bind throws_get fun c => throws_bind (throws_modify _)
    fun _ => throws_bind (throws_runIf ?_) fun _ => ?_
  · exact throws_bind (throws_modify _) fun _ => throws_bind throws_get
      fun _ => throws_runIf hend
  · exact throws_bind (throws_modify _) fun _ => throws_bind throws_get
      fun _ => throws_runIf (throws_bind hprint fun _ => throws_throw nofun)

namespace Shared

/-- How the program goes on. -/
def result (k : Shared) : EStateM.Result Reason Core Unit :=
  match k.stop with
  | none => .ok () k.core
  | some reason => .error reason k.core

theorem result_of_ok {k : Shared} {core : Core}
    (h : k.result = .ok () core) : k.stop = none ∧ k.core = core := by
  rw [result] at h
  cases hstop : k.stop with
  | none =>
      rw [hstop] at h
      cases h
      exact ⟨rfl, rfl⟩
  | some stop =>
      rw [hstop] at h
      cases h

theorem result_of_error {k : Shared} {reason : Reason} {core : Core}
    (h : k.result = .error reason core) :
    k.stop = some reason ∧ k.core = core := by
  rw [result] at h
  cases hstop : k.stop with
  | none =>
      rw [hstop] at h
      cases h
  | some reason' =>
      rw [hstop] at h
      cases h
      exact ⟨rfl, rfl⟩

@[simp] theorem count_refs (x : EStateM Stop Core Unit) (k : Shared) :
    (k.count x).refs = k.refs := by
  rw [count]
  cases k.stop with
  | some reason => rfl
  | none => cases x k.core <;> rfl

theorem count_result {k : Shared} (h : k.stop = none)
    (x : EStateM Stop Core Unit) :
    (k.count x).result = onThrow .client (x k.core) := by
  rw [count, h]
  cases hrun : x k.core with
  | ok _ core => simp only [result, onThrow]
  | error stop core => rfl

/-- Nothing happens any more. -/
theorem count_stopped {k : Shared} {reason : Reason} (h : k.stop = some reason)
    (x : EStateM Stop Core Unit) : k.count x = k := by
  rw [count, h]

theorem put_stopped {k : Shared} {reason : Reason} (h : k.stop = some reason) :
    k.put = k := by
  rw [put, h]

/-- **A callback releases a reference**, which is not the last: the caller
holds one as well. -/
theorem put_ok {k : Shared} (h : k.stop = none) {m : Nat} {c : Cell}
    (hrefs : k.refs = .ok c) (hright : c.Right (m + 2)) :
    ∃ c', k.put = { k with refs := .ok c' } ∧ c'.Right (m + 1) := by
  obtain ⟨c', hput, hright'⟩ := hright.put
    (show m + 1 = 0 → Lifetime.Place.callback = .frame by omega)
  refine ⟨c', ?_, hright'⟩
  have hrun : (k.refs >>= Cell.put .callback) = .ok c' := by
    rw [hrefs]
    exact hput
  rw [put, h]
  simp only [hrun]

end Shared

variable {u : Setting}

/-- The program ended, and the rest has no effect. -/
theorem tell_stopped {k : Shared} {reason : Reason} (h : k.stop = some reason)
    (d : Sample) : d.tell (recordSample u) k = k := by
  rw [Sample.tell, recordSample, Shared.count_stopped h,
    Shared.count_stopped h, Shared.put_stopped h, Shared.count_stopped h]

theorem tellAll_stopped (ds : List Sample) {k : Shared} {reason : Reason}
    (h : k.stop = some reason) : tellAll (recordSample u) ds k = k := by
  induction ds with
  | nil => rfl
  | cons d ds ih =>
      show tellAll (recordSample u) ds (d.tell (recordSample u) k) = k
      rw [tell_stopped h, ih]

/-- **One callback** counts the response and releases a reference. -/
theorem tell_responds (d : Sample) {k : Shared} (h : k.stop = none) {m : Nat}
    {c : Cell} (hrefs : k.refs = .ok c) (hright : c.Right (m + 2)) :
    (d.tell (recordSample u) k).result =
        onThrow .client (respond u d k.core) ∧
      ((d.tell (recordSample u) k).stop = none →
        ∃ c', (d.tell (recordSample u) k).refs = .ok c' ∧
          c'.Right (m + 1)) := by
  let comp : Completion := ⟨0, 0, .ofNat d.queueUs, .ofNat d.serviceUs,
    .ofNat d.waitUs, .ofNat d.bytes⟩
  let core := k.core.advance (u.took k.core.rcvdCount)
  have hlate : k.count (modify (Core.advance (u.took k.core.rcvdCount))) =
      { k with core := core } := by
    rw [Shared.count, h]
    rfl
  have htell : d.tell (recordSample u) k =
      ((({ k with core := core } : Shared).count
        (runIf d.measure (u.offline.addSample comp))).put).count
        u.offline.countReceived := by
    rw [← hlate]
    rfl
  have hrespond : respond u d k.core =
      (runIf d.measure (u.offline.addSample comp) >>= fun _ =>
        u.offline.countReceived) core := rfl
  have hfirst := Shared.count_result (k := { k with core := core }) h
    (runIf d.measure (u.offline.addSample comp))
  rw [htell, hrespond]
  generalize hk : ({ k with core := core } : Shared).count
    (runIf d.measure (u.offline.addSample comp)) = k' at hfirst ⊢
  have hrefs' : k'.refs = .ok c := by rw [← hk, Shared.count_refs, hrefs]
  cases hrun : runIf (d.measure = true) (u.offline.addSample comp) core with
  | error stop core' =>
      rw [hrun] at hfirst
      obtain ⟨hstop, hcore⟩ := Shared.result_of_error hfirst
      rw [bind_of_error hrun, Shared.put_stopped hstop,
        Shared.count_stopped hstop]
      refine ⟨hfirst, fun hnone => ?_⟩
      rw [hstop] at hnone
      cases hnone
  | ok _ core' =>
      rw [hrun] at hfirst
      obtain ⟨hstop, hcore⟩ := Shared.result_of_ok hfirst
      obtain ⟨c', hput, hright'⟩ := Shared.put_ok hstop hrefs' hright
      rw [bind_of_ok hrun, hput]
      refine ⟨?_, fun _ => ⟨c', Shared.count_refs _ _, hright'⟩⟩
      rw [Shared.count_result (by exact hstop), ← hcore]

/-- **Samples in a row.** -/
theorem tellAll_responds (ds : List Sample) : ∀ {k : Shared} {m : Nat}
    {c : Cell}, k.stop = none → k.refs = .ok c →
    c.Right (m + ds.length + 1) →
    (tellAll (recordSample u) ds k).result =
        onThrow .client (runAll (respond u) ds k.core) ∧
      ((tellAll (recordSample u) ds k).stop = none →
        ∃ c', (tellAll (recordSample u) ds k).refs = .ok c' ∧
          c'.Right (m + 1)) := by
  induction ds with
  | nil =>
      intro k m c h hrefs hright
      refine ⟨?_, fun _ => ⟨c, hrefs, hright⟩⟩
      show k.result = .ok () k.core
      rw [Shared.result, h]
  | cons d ds ih =>
      intro k m c h hrefs hright
      obtain ⟨hresult, hnext⟩ := tell_responds (u := u) (m := m + ds.length) d
        h hrefs hright
      have htell : tellAll (recordSample u) (d :: ds) k =
        tellAll (recordSample u) ds (d.tell (recordSample u) k) := rfl
      rw [htell]
      cases hrun : respond u d k.core with
      | ok _ core =>
          rw [hrun] at hresult
          obtain ⟨hstop, hcore⟩ := Shared.result_of_ok hresult
          obtain ⟨c', hrefs', hright'⟩ := hnext hstop
          rw [runAll, bind_of_ok hrun, ← hcore]
          exact ih hstop hrefs' hright'
      | error stop core =>
          rw [hrun] at hresult
          obtain ⟨hstop, hcore⟩ := Shared.result_of_error hresult
          rw [runAll, bind_of_error hrun, tellAll_stopped ds hstop]
          refine ⟨hresult, fun hnone => ?_⟩
          rw [hstop] at hnone
          cases hnone

/-! ## The network of the experiment -/

/-- A request of the experiment is found. -/
theorem find_request {n : Nat} {is : List Nat} {pending : List Load.Request}
    (h : pending.Perm ((n :: is).map e.request)) :
    pending.find? (fun req => req.index = n) = some (e.request n) := by
  have hmem : e.request n ∈ pending := h.mem_iff.mpr List.mem_cons_self
  cases hfind : pending.find? fun req => req.index = n with
  | none =>
      have hmiss := List.find?_eq_none.mp hfind _ hmem
      simp [Experiment.request] at hmiss
  | some req =>
      have hindex := List.find?_some hfind
      have hreq := h.mem_iff.mp (List.mem_of_find?_eq_some hfind)
      obtain ⟨m, -, rfl⟩ := List.mem_map.mp hreq
      have hmn : m = n := of_decide_eq_true hindex
      rw [hmn]

variable (net : Nat → Served)

/-- **One response**, in the program and in the experiment. -/
theorem respond_simulates {c a : Core} (h : Like c a) {n : Nat}
    {is : List Nat} {d : Sample} (hmeasure : u.offline.measure n = d.measure)
    (hpending : a.pending.Perm
      ((n :: is).map (u.experiment net).request)) :
    Agree id
      (fun _ c' a' => Like c' a' ∧ tally a' = ((a.pending.erase
        ((u.experiment net).request n),
          a.results.service.samples ++ measured [d]), a.rcvdCount + 1))
      (fun _ c' a' => Like c' a' ∧ (tally a').1 = (a.pending.erase
        ((u.experiment net).request n),
          a.results.service.samples ++ measured [d]))
      (respond u d c)
      ((u.experiment net).complete ⟨n, u.took c.rcvdCount, .ofNat d.queueUs,
        .ofNat d.serviceUs, .ofNat d.waitUs, .ofNat d.bytes⟩ a) := by
  let comp : Completion := ⟨n, u.took c.rcvdCount, .ofNat d.queueUs,
    .ofNat d.serviceUs, .ofNat d.waitUs, .ofNat d.bytes⟩
  let a₁ := (a.advance comp.took).completed ((u.experiment net).request n)
  have hcomplete : (u.experiment net).complete comp a =
      (u.experiment net).recordSample d.measure comp a₁ := by
    have hfind : (a.advance comp.took).pending.find?
        (fun req => req.index = comp.index) =
          some ((u.experiment net).request n) := find_request hpending
    rw [← hmeasure]
    refine (bind_of_ok rfl).trans ((bind_of_ok rfl).trans ?_)
    simp only [hfind]
    rfl
  have hlike : Like (c.advance comp.took) a₁ :=
    (h.map (f := Core.advance comp.took) fun _ => rfl).ghost rfl
  have hagree := recordSample_blind (e := u.experiment net) d.measure comp
    _ _ hlike
  exact hcomplete ▸ hagree.and_ends (recordSample_tally d rfl a₁)

/-- **Responses in a row.** -/
theorem responses_simulate (ds : List Sample) : ∀ {w others : List Nat}
    {c a : Core}, Like c a →
    ds.map (·.measure) <+: w.map u.offline.measure →
    a.pending.Perm ((w ++ others).map (u.experiment net).request) →
    Agree id
      (fun _ c' a' => Like c' a' ∧
        a'.pending.Perm ((w.drop ds.length ++ others).map
          (u.experiment net).request) ∧
        a'.results.service.samples =
          a.results.service.samples ++ measured ds)
      (fun _ c' a' => Like c' a' ∧ ∃ j ≤ ds.length,
        a'.pending.Perm ((w.drop j ++ others).map
          (u.experiment net).request) ∧
        a'.results.service.samples =
          a.results.service.samples ++ measured (ds.take j))
      (runAll (respond u) ds c)
      (runAll (u.experiment net).complete
        (completions u c.rcvdCount w ds) a) := by
  induction ds with
  | nil =>
      intro w others c a h _ hpending
      have hnone : completions u c.rcvdCount w [] = [] := by
        cases w <;> rfl
      rw [hnone]
      exact .ok ⟨h, hpending, (List.append_nil _).symm⟩
  | cons d ds ih =>
      intro w others c a h hflags hpending
      cases w with
      | nil =>
          have hnone := List.prefix_nil.mp hflags
          cases hnone
      | cons n w =>
          obtain ⟨hmeasure, hflags⟩ := List.cons_prefix_cons.mp hflags
          have hstep := respond_simulates net h hmeasure.symm hpending
          have herase := hpending.erase ((u.experiment net).request n)
          rw [List.cons_append, List.map_cons, List.erase_cons_head] at herase
          rw [runAll, completions, runAll]
          apply hstep.bind
          · rintro stop c' a' - ⟨hlike, htally⟩
            obtain ⟨hrest, hsamples⟩ := Prod.ext_iff.mp htally
            refine ⟨hlike, 1, by simp, ?_, ?_⟩
            · rw [show a'.pending = _ from hrest]
              exact herase
            · rw [List.take_succ_cons, List.take_zero]
              exact hsamples
          · rintro ⟨⟩ c' a' - ⟨hlike, htally⟩
            obtain ⟨hfirst, hcount⟩ := Prod.ext_iff.mp htally
            obtain ⟨hrest, hsamples⟩ := Prod.ext_iff.mp hfirst
            have hrcvd : c.rcvdCount + 1 = c'.rcvdCount := by
              rw [h.rcvdCount, hlike.rcvdCount]
              exact hcount.symm
            rw [hrcvd]
            have hnext : a'.pending.Perm
                ((w ++ others).map (u.experiment net).request) := by
              rw [show a'.pending = _ from hrest]
              exact herase
            have htail := ih hlike hflags hnext
            have hsplit (ds : List Sample) : measured (d :: ds) =
                measured [d] ++ measured ds := measured_append [d] ds
            have hsamples : a'.results.service.samples =
                a.results.service.samples ++ measured [d] := hsamples
            apply htail.mono
            · rintro _ c' a' ⟨hlike, hpending, hall⟩
              refine ⟨hlike, hpending, ?_⟩
              rw [hall, hsamples, List.append_assoc, ← hsplit]
            · rintro _ c' a' ⟨hlike, j, hj, hpending, hall⟩
              refine ⟨hlike, j + 1, Nat.succ_le_succ hj, hpending, ?_⟩
              rw [hall, hsamples, List.append_assoc, ← hsplit]
              rfl

end Program

end Mutated.Ports
