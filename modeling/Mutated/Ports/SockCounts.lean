import Mutated.Ports.SockRuns
import Mutated.Verified.History

/-!
# How often a callback was called

`Counted` is the invariant: an operation that is gone has called its header
callback once, and a pending one has called it exactly when its `hdrlen` is
zero.  No operation has called its body callback twice, and of the pending ones
only the first may have called it.
-/

namespace Mutated.Ports

open Mutated.Verified.History

variable {W : Type} {R C : ℕ+}

/-! ## Runs -/

/-- The calls of the interface. -/
inductive SockCall (W : Type)
  | read (op : IORx W) (rin : List ReadRes)
  | write (data : List UInt8)
  | writeEmplace (obj : List UInt8) (stack : Nat → UInt8)
  | writeRoom (m n : Nat)
  | writeCbPoint (cb : Option (TxCB W)) (data : Option Nat)
  | tryTx (wout : List WriteRes)
  | runIo (events : UInt32) (check : ConnCheck) (rin : List ReadRes)
      (wout : List WriteRes)

namespace SockCall

def call : SockCall W → EStateM Exn (Sock W R C) Unit
  | .read op rin => Sock.read op rin
  | .write data => Sock.write data
  | .writeEmplace obj stack => Sock.writeEmplace obj stack
  | .writeRoom m n => do
      let _ ← Sock.writePrepare m
      Sock.writeCommit n
  | .writeCbPoint cb data => Sock.writeCbPoint cb data
  | .tryTx wout => Sock.tryTx wout
  | .runIo events check rin wout => Sock.runIo events check rin wout

/-- The operation a call queues. -/
def queues : SockCall W → List (IORx W)
  | .read op _ => [op]
  | _ => []

end SockCall

/-! ## Counting -/

/-- How often the callback for `phase` of the `k`-th operation was called. -/
def timesCalled (t : List Event) (k : Nat) (phase : Phase) : Nat :=
  t.countP fun
    | .rxcb serial ph _ _ _ => serial = k ∧ ph = phase
    | _ => false

@[simp] theorem timesCalled_append (t u : List Event) (k : Nat)
    (phase : Phase) : timesCalled (t ++ u) k phase =
      timesCalled t k phase + timesCalled u k phase :=
  List.countP_append

/-- A call of one callback counts for that one only. -/
theorem timesCalled_rxcb (serial k : Nat) (ph phase : Phase) (segs : Segs)
    (status : Int) (ret : Nat) :
    timesCalled [.rxcb serial ph segs status ret] k phase =
      if serial = k ∧ ph = phase then 1 else 0 := by
  simp [timesCalled]

/-- The operation `op` is the `n`-th one, which was queued as `orig`. -/
structure Waiting (t : List Event) (n : Nat) (orig op : IORx W) : Prop where
  serial : op.serial = n
  hdrcb : op.hdrcb = orig.hdrcb
  bodycb : op.bodycb = orig.bodycb
  hdr : orig.hdrlen ≠ 0 → orig.hdrcb ≠ none →
    timesCalled t n .hdr = if 0 < op.hdrlen then 0 else 1

/-- The `n`-th operation, which was queued as `orig`, called its callbacks as
often as it should. -/
structure Told (t : List Event) (n : Nat) (orig : IORx W) : Prop where
  hdr : orig.hdrlen ≠ 0 → orig.hdrcb ≠ none → timesCalled t n .hdr = 1
  body : timesCalled t n .body ≤ 1

/-- **The invariant**, for the operations `issued` so far. -/
structure Counted (issued : List (IORx W)) (q : Queues W) : Prop where
  pending : q.rxCbs.length ≤ issued.length
  waiting : ∀ (j : Nat) (op : IORx W), q.rxCbs[j]? = some op →
    ∃ orig, issued[issued.length - q.rxCbs.length + j]? = some orig ∧
      Waiting q.trace (issued.length - q.rxCbs.length + j) orig op
  head : ∀ op ∈ q.rxCbs.head?, timesCalled q.trace op.serial .body = 0 ∨
    timesCalled q.trace op.serial .body = 1 ∧ op.need = 0
  rest : ∀ op ∈ q.rxCbs.tail, timesCalled q.trace op.serial .body = 0
  gone : ∀ (k : Nat) (orig : IORx W), issued[k]? = some orig →
    k < issued.length - q.rxCbs.length → Told q.trace k orig
  fresh : ∀ (k : Nat) (phase : Phase), issued.length ≤ k →
    timesCalled q.trace k phase = 0

namespace Counted

variable {issued : List (IORx W)} {q q' : Queues W}

theorem init (hops : q.rxCbs = []) (htrace : q.trace = []) :
    Counted [] q := by
  refine ⟨?_, ?_, ?_, ?_, ?_, ?_⟩
  · rw [hops]
  · rw [hops]
    exact fun _ _ h => by cases h
  · rw [hops]
    exact fun _ h => by cases h
  · rw [hops]
    exact fun _ h => by cases h
  · exact fun _ _ h => by cases h
  · rw [htrace]
    exact fun _ _ _ => rfl

theorem congr (h : Counted issued q) (hops : q'.rxCbs = q.rxCbs)
    (hfired : ∀ k phase,
      timesCalled q'.trace k phase = timesCalled q.trace k phase) :
    Counted issued q' := by
  refine ⟨?_, ?_, ?_, ?_, ?_, ?_⟩
  · rw [hops]
    exact h.pending
  · rw [hops]
    intro j op hop
    obtain ⟨orig, horig, hwaiting⟩ := h.waiting j op hop
    refine ⟨orig, horig, hwaiting.serial, hwaiting.hdrcb, hwaiting.bodycb, ?_⟩
    rw [hfired]
    exact hwaiting.hdr
  · rw [hops]
    intro op hop
    rw [hfired]
    exact h.head op hop
  · rw [hops]
    intro op hop
    rw [hfired]
    exact h.rest op hop
  · rw [hops]
    intro k orig horig hk
    have htold := h.gone k orig horig hk
    refine ⟨?_, ?_⟩
    · rw [hfired]
      exact htold.hdr
    · rw [hfired]
      exact htold.body
  · intro k phase hk
    rw [hfired]
    exact h.fresh k phase hk

/-- The first operation works, and no other one is touched. -/
theorem touch (h : Counted issued q) {op op' : IORx W}
    {ops : List (IORx W)} (hops : q.rxCbs = op :: ops)
    (hops' : q'.rxCbs = op' :: ops) (hserial : op'.serial = op.serial)
    (hhdrcb : op'.hdrcb = op.hdrcb) (hbodycb : op'.bodycb = op.bodycb)
    (hother : ∀ k phase, k ≠ op.serial →
      timesCalled q'.trace k phase = timesCalled q.trace k phase)
    (hhdr : op.hdrcb ≠ none →
      timesCalled q.trace op.serial .hdr = (if 0 < op.hdrlen then 0 else 1) →
      timesCalled q'.trace op.serial .hdr = if 0 < op'.hdrlen then 0 else 1)
    (hbody : timesCalled q'.trace op.serial .body = 0 ∨
      timesCalled q'.trace op.serial .body = 1 ∧ op'.need = 0) :
    Counted issued q' := by
  have hlen : q'.rxCbs.length = q.rxCbs.length := by
    rw [hops, hops', List.length_cons, List.length_cons]
  obtain ⟨orig, horig, hfirst⟩ := h.waiting 0 op (by rw [hops]; rfl)
  have hpending := h.pending
  rw [hops, List.length_cons] at hpending
  have hplace : op.serial = issued.length - q.rxCbs.length := hfirst.serial
  have hserials : ∀ (j : Nat) (op'' : IORx W), ops[j]? = some op'' →
      op''.serial ≠ op.serial := by
    intro j op'' hop
    obtain ⟨_, _, hwaiting⟩ := h.waiting (j + 1) op'' (by rw [hops]; exact hop)
    have := hwaiting.serial
    omega
  refine ⟨?_, ?_, ?_, ?_, ?_, ?_⟩
  · rw [hlen]
    exact h.pending
  · rw [hlen, hops']
    intro j op'' hop
    cases j with
    | zero =>
        cases hop
        refine ⟨orig, horig, hserial.trans hfirst.serial,
          hhdrcb.trans hfirst.hdrcb, hbodycb.trans hfirst.bodycb, ?_⟩
        intro hlen' hcb
        have hcount := hfirst.hdr hlen' hcb
        rw [Nat.add_zero, ← hplace] at hcount ⊢
        exact hhdr (by rw [hfirst.hdrcb]; exact hcb) hcount
    | succ j =>
        obtain ⟨orig', horig', hwaiting⟩ :=
          h.waiting (j + 1) op'' (by rw [hops]; exact hop)
        refine ⟨orig', horig', hwaiting.serial, hwaiting.hdrcb,
          hwaiting.bodycb, ?_⟩
        rw [hother _ _ (by omega)]
        exact hwaiting.hdr
  · rw [hops']
    intro op'' hop
    cases hop
    rw [hserial]
    exact hbody
  · rw [hops']
    intro op'' hop
    obtain ⟨j, hj⟩ := List.mem_iff_getElem?.mp hop
    rw [hother _ _ (hserials j op'' hj)]
    exact h.rest op'' (by rw [hops]; exact hop)
  · rw [hlen]
    intro k orig' horig' hk
    have htold := h.gone k orig' horig' hk
    refine ⟨?_, ?_⟩
    · rw [hother _ _ (by omega)]
      exact htold.hdr
    · rw [hother _ _ (by omega)]
      exact htold.body
  · intro k phase hk
    rw [hother _ _ (by rw [hops, List.length_cons] at hplace; omega)]
    exact h.fresh k phase hk

/-- An operation that was queued is gone or pending. -/
theorem gone_or_pending (h : Counted issued q) {k : Nat}
    (hk : k < issued.length) :
    k < issued.length - q.rxCbs.length ∨ ∃ op ∈ q.rxCbs, op.serial = k := by
  have hpending := h.pending
  rcases Nat.lt_or_ge k (issued.length - q.rxCbs.length) with hlt | hge
  · exact .inl hlt
  · have hop := List.getElem?_eq_getElem
      (show k - (issued.length - q.rxCbs.length) < q.rxCbs.length by omega)
    obtain ⟨_, _, hwaiting⟩ := h.waiting _ _ hop
    refine .inr ⟨_, List.mem_of_getElem? hop, ?_⟩
    rw [hwaiting.serial]
    omega

/-- The first operation is past some bytes that it has no callback for. -/
theorem skipped (h : Counted issued q) {op : IORx W} {ops : List (IORx W)}
    {n : Nat} (hops : q.rxCbs = op :: ops) (hcb : op.cb = none)
    (hneed : n ≤ op.need) (hops' : q'.rxCbs = op.skip n :: ops)
    (htrace : q'.trace = q.trace) : Counted issued q' := by
  refine h.touch hops hops' (op.skip_serial n) (op.skip_hdrcb n)
    (op.skip_bodycb n) (fun _ _ _ => by rw [htrace]) ?_ ?_
  · intro hsome hcount
    rw [htrace, hcount]
    by_cases hpos : 0 < op.hdrlen
    · rw [IORx.cb, if_pos hpos] at hcb
      exact absurd hcb hsome
    · simp only [IORx.skip, if_neg hpos]
  · rw [htrace]
    rcases h.head op (by rw [hops]; rfl) with hzero | ⟨hone, hdone⟩
    · exact .inl hzero
    · have hn : n = 0 := by omega
      refine .inr ⟨hone, ?_⟩
      rw [hn]
      unfold IORx.skip
      split <;> exact hdone

/-- The first operation has called the callback of its phase. -/
theorem fired (h : Counted issued q) {op : IORx W} {ops : List (IORx W)}
    {r : Nat} {segs : Segs} (hops : q.rxCbs = op :: ops) (hpos : 0 < op.need)
    (hops' : q'.rxCbs = op.fire r :: ops)
    (htrace : q'.trace = q.trace ++ [.rxcb op.serial op.phase segs 0 r]) :
    Counted issued q' := by
  have hzero : timesCalled q.trace op.serial .body = 0 := by
    rcases h.head op (by rw [hops]; rfl) with hzero | ⟨-, hdone⟩
    · exact hzero
    · omega
  refine h.touch hops hops' (op.fire_serial r) (op.fire_hdrcb r)
    (op.fire_bodycb r) ?_ ?_ ?_
  · intro k phase hk
    rw [htrace, timesCalled_append, timesCalled_rxcb,
      if_neg (fun h => hk h.1.symm)]
    rfl
  · intro hsome hcount
    rw [htrace, timesCalled_append, timesCalled_rxcb, hcount]
    by_cases hhdr : 0 < op.hdrlen
    · rw [IORx.fire, if_pos hhdr, IORx.phase, if_pos hhdr]
      simp [hhdr]
    · rw [IORx.fire, if_neg hhdr, IORx.phase, if_neg hhdr]
      simp [hhdr]
  · rw [htrace, timesCalled_append, timesCalled_rxcb, hzero]
    by_cases hhdr : 0 < op.hdrlen
    · left
      rw [IORx.phase, if_pos hhdr]
      simp
    · right
      rw [IORx.phase, if_neg hhdr, IORx.fire, if_neg hhdr]
      exact ⟨by simp, by simp [IORx.need, hhdr]⟩

/-- The first operation has nothing left to receive, and has told all. -/
theorem head_told (h : Counted issued q) {op orig : IORx W}
    {ops : List (IORx W)} (hops : q.rxCbs = op :: ops) (hneed : op.need = 0)
    (horig : issued[issued.length - q.rxCbs.length]? = some orig) :
    Told q.trace (issued.length - q.rxCbs.length) orig := by
  obtain ⟨orig', horig', hfirst⟩ := h.waiting 0 op (by rw [hops]; rfl)
  cases horig.symm.trans horig'
  refine ⟨fun hlen hcb => ?_, ?_⟩
  · have hcount := hfirst.hdr hlen hcb
    have hzero : ¬ 0 < op.hdrlen := by
      intro hpos
      rw [IORx.need, if_pos hpos] at hneed
      omega
    rwa [if_neg hzero] at hcount
  · have hbody := h.head op (by rw [hops]; rfl)
    rw [hfirst.serial] at hbody
    show timesCalled q.trace
      (issued.length - q.rxCbs.length + 0) .body ≤ 1
    omega

/-- The first operation is removed. -/
theorem finished (h : Counted issued q) {op : IORx W} {ops : List (IORx W)}
    (hops : q.rxCbs = op :: ops) (hneed : op.need = 0) :
    Counted issued { q with rxCbs := ops } := by
  have hpending := h.pending
  have hlen : q.rxCbs.length = ops.length + 1 := by
    rw [hops, List.length_cons]
  refine ⟨by show ops.length ≤ _; omega, ?_, ?_, ?_, ?_, h.fresh⟩
  · show ∀ (j : Nat) (op' : IORx W), ops[j]? = some op' → _
    intro j op' hop
    have hsame : issued.length - ops.length + j =
        issued.length - q.rxCbs.length + (j + 1) := by omega
    rw [hsame]
    exact h.waiting (j + 1) op' (by rw [hops]; exact hop)
  · show ∀ op' ∈ ops.head?, _
    intro op' hop
    refine .inl (h.rest op' ?_)
    rw [hops]
    exact List.mem_of_mem_head? hop
  · show ∀ op' ∈ ops.tail, _
    intro op' hop
    exact h.rest op' (by rw [hops]; exact List.mem_of_mem_tail hop)
  · show ∀ (k : Nat) (orig' : IORx W), issued[k]? = some orig' →
      k < issued.length - ops.length → _
    intro k orig' horig' hk
    rcases Nat.lt_or_ge k (issued.length - q.rxCbs.length) with hlt | hge
    · exact h.gone k orig' horig' hlt
    · have hk' : k = issued.length - q.rxCbs.length := by omega
      rw [hk'] at horig' ⊢
      exact h.head_told hops hneed horig'

/-- **Every small step of the receive path keeps the invariant.** -/
theorem step_rx {addr : Nat} (h : Counted issued q)
    (hstep : Queues.RxStep C addr q q') : Counted issued q' := by
  cases hstep with
  | recvd b bs hfit => exact h.congr rfl (by simp [timesCalled])
  | skip op ops n hops hcb hlen hneed =>
      exact h.skipped hops hcb hneed rfl rfl
  | fire op ops cb r w hops hcb hpos hneed hcall =>
      exact h.fired hops hpos rfl rfl
  | finish op ops hops hneed => exact h.finished hops hneed

/-- Transmitting does not count. -/
theorem step_tx {addr : Nat} (h : Counted issued q)
    (hstep : Queues.TxStep R addr q q') : Counted issued q' := by
  cases hstep with
  | accepted k hcredit hbusy hk => exact h.congr rfl (by simp [timesCalled])
  | fire c pt pts f w hcredit hpts hroom hlen hcb hcall =>
      exact h.congr rfl (by simp [timesCalled])
  | pay c pt pts hcredit hpts hroom hlen =>
      exact h.congr rfl (by simp [timesCalled])
  | spent c hcredit hpts => exact h.congr rfl fun _ _ => rfl
  | overrun c hcredit hfull => exact h.congr rfl fun _ _ => rfl

/-- An operation is queued. -/
theorem queued (h : Counted issued q) (op : IORx W) :
    Counted (issued ++ [op])
      (q.queued [{ op with serial := issued.length }]) := by
  have hpending := h.pending
  have hfresh := fun phase => h.fresh issued.length phase (Nat.le_refl _)
  have hlen : (q.queued [{ op with serial := issued.length }]).rxCbs.length =
      q.rxCbs.length + 1 := by simp [Queues.queued]
  have hplace : (issued ++ [op]).length -
      (q.queued [{ op with serial := issued.length }]).rxCbs.length =
      issued.length - q.rxCbs.length := by
    rw [hlen, List.length_append, List.length_singleton]
    omega
  refine ⟨?_, ?_, ?_, ?_, ?_, ?_⟩
  · rw [hlen, List.length_append, List.length_singleton]
    omega
  · rw [hplace]
    show ∀ (j : Nat) (op' : IORx W),
      (q.rxCbs ++ [{ op with serial := issued.length }])[j]? = some op' → _
    intro j op' hop
    rcases getElem?_snoc hop with hold | ⟨rfl, rfl⟩
    · obtain ⟨orig, horig, hwaiting⟩ := h.waiting j op' hold
      have hlt := (List.getElem?_eq_some_iff.mp horig).1
      exact ⟨orig, by rw [List.getElem?_append_left hlt]; exact horig,
        hwaiting⟩
    · rw [Nat.sub_add_cancel hpending]
      refine ⟨op, by simp, rfl, rfl, rfl, fun hhdr _ => ?_⟩
      rw [if_pos (show 0 < op.hdrlen by omega)]
      exact hfresh .hdr
  · show ∀ op' ∈ (q.rxCbs ++ [{ op with serial := issued.length }]).head?, _
    intro op' hop
    cases hlist : q.rxCbs with
    | nil =>
        rw [hlist] at hop
        cases hop
        exact .inl (hfresh .body)
    | cons first rest =>
        rw [hlist] at hop
        exact h.head op' (by rw [hlist]; exact hop)
  · show ∀ op' ∈ (q.rxCbs ++ [{ op with serial := issued.length }]).tail, _
    intro op' hop
    cases hlist : q.rxCbs with
    | nil =>
        rw [hlist] at hop
        cases hop
    | cons first rest =>
        rw [hlist] at hop
        rcases List.mem_append.mp hop with hold | hnew
        · exact h.rest op' (by rw [hlist]; exact hold)
        · rw [List.mem_singleton.mp hnew]
          exact hfresh .body
  · rw [hplace]
    intro k orig horig hk
    rw [List.getElem?_append_left (by omega)] at horig
    exact h.gone k orig horig hk
  · intro k phase hk
    rw [List.length_append, List.length_singleton] at hk
    exact h.fresh k phase (by omega)

theorem steady {addr : Nat} : Steady R C addr (Counted (W := W) issued) :=
  ⟨fun _ h hstep => h.step_rx hstep, fun h hstep => h.step_tx hstep⟩

end Counted

end Mutated.Ports
