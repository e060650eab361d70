import Mutated.Ports.GeneratorLockstep

/-!
# What the client is told

The data of the client change only when a completion callback runs, and that
is when a response is handled.  If all callbacks handed to `_send_request`
have a property `Q`, then so do those that wait in `requests_`.  What such a
callback keeps true of the samples so far and the client's data holds after
every step of the connection.
-/

namespace Mutated.Ports

open Mutated.Verified.Circular
open Mutated.Verified.Exec

variable {X K : Type} {R C : ℕ+}

/-- What the callback makes of the data of the client. -/
def Sample.tell (d : Sample) (cb : RequestCB K) (k : K) : K :=
  cb d.queueUs d.serviceUs d.waitUs d.bytes d.measure k

/-- Callbacks with `Q` carry `J` from one sample to the next. -/
def Tells (Q : RequestCB K → Prop) (J : List Sample → K → Prop) : Prop :=
  ∀ cb, Q cb → ∀ past d k, J past k → J (past ++ [d]) (d.tell cb k)

/-- **The invariant**: `Q` holds of the callbacks that wait, and `J` of the
samples and the client's data. -/
structure Reporting (clk : Nat → Nat) (P : Proto X) (C : ℕ+) (addr : Nat)
    (Q : RequestCB K → Prop) (J : List Sample → K → Prop)
    (sent : List (Sent X)) (lag : Nat) (q : Queues (World X K R)) : Prop
    extends Lockstep clk P C addr sent lag q where
  waits : ∀ (k : Nat) (x : Sent X), q.answered ≤ k → sent[k]? = some x →
    ∃ cb, (q.world.requests.buf (k % R)).cb = some cb ∧ Q cb
  told : J q.world.done q.world.client

namespace Reporting

variable {clk : Nat → Nat} {P : Proto X} {addr : Nat}
  {Q : RequestCB K → Prop} {J : List Sample → K → Prop}
  {sent : List (Sent X)} {lag : Nat} {q q' : Queues (World X K R)}

/-- A new connection. -/
theorem init (rmem wmem : Nat → UInt8) (info : X) (client : K)
    (hJ : J [] client) : Reporting clk P C addr Q J [] 0
      (connect addr rmem wmem info client : Conn X K R C).view := by
  refine ⟨.init rmem wmem info client rfl, ?_, hJ⟩
  intro k x _ hx
  cases hx

/-- Nothing was answered, and the callbacks are the same. -/
private theorem congr (h : Reporting clk P C addr Q J sent lag q)
    {lag' : Nat} (hlock : Lockstep clk P C addr sent lag' q')
    (hanswered : q'.answered = q.answered)
    (hcbs : ∀ j, (q'.world.requests.buf j).cb = (q.world.requests.buf j).cb)
    (hdone : q'.world.done = q.world.done)
    (hclient : q'.world.client = q.world.client) :
    Reporting clk P C addr Q J sent lag' q' := by
  refine ⟨hlock, ?_, ?_⟩
  · intro k x hk hx
    rw [hanswered] at hk
    rw [hcbs]
    exact h.waits k x hk hx
  · rw [hdone, hclient]
    exact h.told

/-- The callback of the oldest request is told its sample. -/
private theorem answer (hJ : Tells Q J)
    (h : Reporting clk P C addr Q J sent lag q)
    {op : IORx (World X K R)} {ops : List (IORx (World X K R))}
    {cb : RxCB (World X K R)} {r : Nat} {w : World X K R}
    (hun : unanswered q.rxCbs = op :: ops) (hcb : op.hdrcb = some cb)
    (hlen : P.size ≤ q.rbuf.length)
    (hcall : cb addr op.cbdata
      (segsAt C q.rhead (q.rbuf.take P.size)) 0 q.world = .ok r w) :
    (∀ j, (w.requests.buf j).cb = (q.world.requests.buf j).cb) ∧
      J w.done w.client := by
  obtain ⟨x, hx, -, heq⟩ := h.call_eq hun hcb hlen
  obtain ⟨f, hf, hQ⟩ := h.waits q.answered x (Nat.le_refl _) hx
  rw [heq, report_ok_iff] at hcall
  obtain ⟨-, -, waitUs, f', -, hf', rfl⟩ := hcall
  cases hf.symm.trans hf'
  exact ⟨fun _ => rfl, hJ f hQ _ _ _ h.told⟩

theorem step_rx (hsize : 0 < P.size) (hJ : Tells Q J)
    (h : Reporting clk P C addr Q J sent lag q)
    (hstep : Queues.RxStep C addr q q') :
    Reporting clk P C addr Q J sent lag q' := by
  have hlock := h.toLockstep.step_rx hsize hstep
  cases header_cases hsize h.framed.ops hstep with
  | recvd b bs =>
      exact h.congr hlock (by simp [Queues.answered, delivered])
        (fun _ => rfl) rfl rfl
  | pass n ops hfresh hops hskip hlen =>
      exact h.congr hlock rfl (fun _ => rfl) rfl rfl
  | finish ops hfresh hops hskip =>
      exact h.congr hlock rfl (fun _ => rfl) rfl rfl
  | answer op ops cb r w hops hun hcb hlen hcall =>
      obtain ⟨hcbs, htold⟩ := h.answer hJ hun hcb hlen hcall
      refine ⟨hlock, ?_, htold⟩
      intro k x hk hx
      have hnext : q.answered ≤ k := by
        refine Nat.le_trans ?_ hk
        simp [Queues.answered, delivered]
      show ∃ f, (w.requests.buf (k % R)).cb = some f ∧ Q f
      rw [hcbs]
      exact h.waits k x hnext hx

theorem step_tx (h : Reporting clk P C addr Q J sent lag q)
    (hstep : Queues.TxStep R addr q q') :
    Reporting clk P C addr Q J sent lag q' := by
  have hlock := h.toLockstep.step_tx hstep
  cases hstep with
  | accepted k hcredit hbusy hk =>
      exact h.congr hlock (by simp [Queues.answered, delivered])
        (fun _ => rfl) rfl rfl
  | fire c pt pts f w hcredit hpts hroom hlen hcb hcall =>
      obtain ⟨hf, hdata⟩ := h.points pt (by
        rw [hpts]
        exact List.mem_cons_self)
      cases hcb.symm.trans hf
      rw [hdata, sentRequest_ok h.sock] at hcall
      cases hcall
      refine h.congr hlock (by simp [Queues.answered, delivered]) ?_ rfl rfl
      intro j
      simp only [World.stamped, blit_singleton]
      split
      · next hj => rw [hj]
      · rfl
  | pay c pt pts hcredit hpts hroom hlen =>
      exact h.congr hlock (by simp [Queues.answered, delivered])
        (fun _ => rfl) rfl rfl
  | spent c hcredit hpts => exact h.congr hlock rfl (fun _ => rfl) rfl rfl
  | overrun c hcredit hfull => exact h.congr hlock rfl (fun _ => rfl) rfl rfl

/-- **A request is made** with a callback that has `Q`. -/
theorem submit (h : Reporting clk P C addr Q J sent 0 q)
    (hroom : 0 < q.world.requests.space) (info : X) (measure : Bool)
    {cb : RequestCB K} (hQ : Q cb) (bytes : List UInt8) :
    Reporting clk P C addr Q J
      (sent ++ [⟨q.world.requests.tail, info, measure⟩]) 1
      (q.submitted clk P info measure cb bytes sent.length) := by
  have hlock := h.toLockstep.submit hroom info measure cb bytes
  have hanswered : (q.submitted clk P info measure cb bytes
      sent.length).answered = q.answered := by
    have hreported := hlock.reported
    exact hreported.symm.trans h.reported
  refine ⟨hlock, ?_, h.told⟩
  rw [hanswered]
  intro k x hk hx
  show ∃ f, ((q.world.submitted clk info measure cb).requests.buf
    (k % R)).cb = some f ∧ Q f
  rw [Lockstep.submitted_buf h.wf]
  by_cases hslot : k % R = q.world.requests.tail
  · rw [if_pos hslot]
    exact ⟨cb, rfl, hQ⟩
  · rw [if_neg hslot]
    rcases Nat.lt_or_ge k sent.length with hlt | hge
    · rw [List.getElem?_append_left hlt] at hx
      exact h.waits k x hk hx
    · have hlast := (List.getElem?_eq_some_iff.mp hx).1
      rw [List.length_append, List.length_singleton] at hlast
      refine absurd ?_ hslot
      rw [h.tail, show k = sent.length by omega]

/-- **The operation of the request is queued.** -/
theorem await (hsize : 0 < P.size) {x : Sent X}
    (h : Reporting clk P C addr Q J (sent ++ [x]) 1 q) :
    Reporting clk P C addr Q J (sent ++ [x]) 0
      (q.queued [awaits K R clk P x.slot sent.length]) :=
  h.congr (h.toLockstep.await hsize) rfl (fun _ => rfl) rfl rfl

end Reporting

/-- **What the callbacks carry on, the connection carries on.** -/
theorem reporting_carried {clk : Nat → Nat} {P : Proto X} (hsize : 0 < P.size)
    (addr : Nat) (len : X → Nat) {Q : RequestCB K → Prop}
    {J : List Sample → K → Prop} (hJ : Tells Q J) :
    Carried (R := R) clk P C addr len (fun _ cb => Q cb)
      (Reporting clk P C addr Q J) where
  wf := fun h => h.wf
  rx := fun _ h hstep => h.step_rx hsize hJ hstep
  tx := fun h hstep => h.step_tx hstep
  submit := fun measure _ _ _ h hQ hroom _ _ =>
    h.submit hroom _ measure hQ _
  await := fun h => h.await hsize

end Mutated.Ports
