import Mutated.Ports.SockProgress
import Mutated.Ports.SockWrites

/-!
# Properties that every small step keeps

What holds of the queues of a socket across all small steps of both paths
holds across every call, and until the very moment a call throws.  `Steady`
is such a property, and `runIo_steady`, `tryTx_steady` and `read_steady` carry
it over the calls, with what the calls leave alone besides.

`Cause` says what can make a call throw: a buffer, the kernel, or a
callback.
-/

namespace Mutated.Ports

open Mutated.Verified.Circular
open Mutated.Verified.Exec
open Relation (ReflTransGen)

variable {W : Type} {R C : ℕ+}

/-- What made a call throw, at the queues `q`. -/
inductive Cause (C addr : Nat) (q : Queues W) : Exn → Prop
  | buffer {e : Exn} (h : BufferExn e) : Cause C addr q e
  | rx {e : Exn} (h : Sock.RxExn e) : Cause C addr q e
  | tx {e : Exn} (h : Sock.TxExn e) : Cause C addr q e
  | conn {e : Exn} (h : Sock.ConnExn e) : Cause C addr q e
  | rxFault {e : Exn} {w : W} (h : Queues.RxFault C addr q e w) :
      Cause C addr q e
  | txFault {e : Exn} {w : W} (h : Queues.TxFault addr q e w) :
      Cause C addr q e

/-- A property of the queues that every small step keeps.  Receiving goes on
only between two rounds of transmitting. -/
structure Steady (R C : ℕ+) (addr : Nat) (I : Queues W → Prop) : Prop where
  rx : ∀ {q q'}, q.credit = none → I q → Queues.RxStep C addr q q' → I q'
  tx : ∀ {q q'}, I q → Queues.TxStep R addr q q' → I q'

/-- The property holds of a well-formed socket at `addr`. -/
structure Holds (addr : Nat) (I : Queues W → Prop) (s : Sock W R C) :
    Prop where
  wf : s.WF
  addr : s.addr = addr
  holds : I s.view

/-- A call that returned: the property still holds, and no operation or point
was added. -/
structure Ran (addr : Nat) (I : Queues W → Prop) (s s' : Sock W R C) :
    Prop extends Holds addr I s' where
  nread : s'.nread = s.nread
  npoint : s'.npoint = s.npoint
  live : s.view.Live → s'.view.Live

/-- A call that threw `e`: the property held until then. -/
def Stopped (addr : Nat) (I : Queues W → Prop) (e : Exn) (s : Sock W R C) :
    Prop :=
  ∃ q, I q ∧ s.trace = q.trace ∧ Cause C addr q e

section Steady

variable {addr : Nat} {I : Queues W → Prop} {s : Sock W R C}

theorem Holds.ran (h : Holds addr I s) : Ran addr I s s :=
  ⟨h, rfl, rfl, fun hlive => hlive⟩

theorem Ran.trans {t u : Sock W R C} (h : Ran addr I s t)
    (h' : Ran addr I t u) : Ran addr I s u :=
  ⟨h'.toHolds, h'.nread.trans h.nread, h'.npoint.trans h.npoint,
    fun hlive => h'.live (h.live hlive)⟩

/-- A call that only touches `wbuf_` and throws. -/
theorem Holds.stopped_of_write (h : Holds addr I s)
    {x : EStateM Exn (Sock W R C) Unit} (hx : Writes x) {e : Exn}
    {s' : Sock W R C} (hrun : x s = .error e s') : Stopped addr I e s' :=
  ⟨s.view, h.holds, congrArg (·.2.2.2.1) (hx.quiet.of_error hrun),
    .buffer (hx.throws.of_error hrun)⟩

theorem Steady.rx_chain (hI : Steady R C addr I) {q q' : Queues W}
    (hchain : ReflTransGen (Queues.RxStep C addr) q q')
    (hcredit : q.credit = none) (h : I q) : q'.credit = none ∧ I q' := by
  induction hchain with
  | refl => exact ⟨hcredit, h⟩
  | tail _ hlast ih =>
      refine ⟨?_, hI.rx ih.1 ih.2 hlast⟩
      cases hlast <;> exact ih.1

theorem Steady.tx_chain (hI : Steady R C addr I) {q q' : Queues W}
    (hchain : ReflTransGen (Queues.TxStep R addr) q q') (h : I q) : I q' :=
  invariant_of_step (P := I) (fun _ _ hstep hq => hI.tx hq hstep) hchain h

/-! ## Transmitting -/

private theorem Steady.tx_ran (hI : Steady R C addr I)
    (h : Holds addr I s) {s' : Sock W R C} (hran : Sock.TxRan s s') :
    Ran addr I s s' := by
  have hchain := hran.chain
  rw [h.addr] at hchain
  have hops : s'.rxCbs = s.rxCbs := congrArg (·.2.2.1) hran.rxSide
  refine ⟨⟨hran.wf, ?_, hI.tx_chain hchain h.holds⟩, ?_, hran.npoint, ?_⟩
  · exact (congrArg (·.1) hran.rxSide).trans h.addr
  · exact congrArg (·.2.2.2.2) hran.rxSide
  · intro hlive
    unfold Queues.Live at hlive ⊢
    simp only [Sock.view] at hlive ⊢
    rw [hops]
    exact hlive

private theorem Steady.tx_stopped (hI : Steady R C addr I)
    (h : I s.view) {e : Exn} {s' : Sock W R C}
    (hfailed : Sock.TxFailed s.view addr e s') : Stopped addr I e s' := by
  rcases hfailed with ⟨c, hchain, hfault, htrace⟩ | ⟨c, hchain, hexn, htrace, -⟩
  · exact ⟨c, hI.tx_chain hchain h, htrace, .txFault hfault⟩
  · exact ⟨c, hI.tx_chain hchain h, htrace, .tx hexn⟩

/-- **`try_tx`** keeps a steady property. -/
theorem tryTx_steady (hI : Steady R C addr I) (h : Holds addr I s)
    (wout : List WriteRes) :
    (∃ s', Sock.tryTx wout s = .ok () s' ∧ Ran addr I s s') ∨
    ∃ e s', Sock.tryTx wout s = .error e s' ∧ Stopped addr I e s' := by
  rcases Sock.tryTx_cases h.wf wout with
    ⟨s', hrun, hran⟩ | ⟨e, s', hrun, hfailed⟩
  · exact .inl ⟨s', hrun, hI.tx_ran h hran⟩
  · rw [h.addr] at hfailed
    exact .inr ⟨e, s', hrun, hI.tx_stopped h.holds hfailed⟩

private theorem runOut_steady (hI : Steady R C addr I) (h : Holds addr I s)
    (check : ConnCheck) (wout : List WriteRes) :
    (∃ s', Sock.runOut check wout s = .ok () s' ∧ Ran addr I s s') ∨
    ∃ e s', Sock.runOut check wout s = .error e s' ∧
      Stopped addr I e s' := by
  rcases Sock.runOut_cases h.wf check wout with
    ⟨s', hrun, hran⟩ | ⟨e, s', hrun, hfailed | ⟨hexn, hsame⟩⟩
  · exact .inl ⟨s', hrun, hI.tx_ran h hran⟩
  · rw [h.addr] at hfailed
    exact .inr ⟨e, s', hrun, hI.tx_stopped h.holds hfailed⟩
  · subst hsame
    exact .inr ⟨e, s', hrun, s'.view, h.holds, rfl, .conn hexn⟩

/-! ## Receiving -/

/-- Receiving keeps a steady property. -/
private theorem rx_steady (hI : Steady R C addr I) (h : Holds addr I s)
    (rin : List ReadRes) :
    (∃ s', Sock.rx rin s = .ok () s' ∧ Ran addr I s s') ∨
    ∃ e s', Sock.rx rin s = .error e s' ∧ Stopped addr I e s' := by
  rcases Sock.rx_cases rin h.wf with
    ⟨s', hrx, hwf, houter, hchain⟩ | ⟨e, s', hrx, hfailed⟩
  · rw [h.addr] at hchain
    refine .inl ⟨s', hrx, ⟨hwf, ?_, ?_⟩, ?_, ?_, rx_live rin h.wf hrx⟩
    · exact (Sock.addr_eq_of_outer houter).trans h.addr
    · exact (hI.rx_chain hchain rfl h.holds).2
    · exact congrArg (·.2) houter
    · exact congrArg (·.1.2.2.2.2.2.2) houter
  · rw [h.addr] at hfailed
    refine .inr ⟨e, s', hrx, ?_⟩
    rcases hfailed with
      ⟨c, hchain, hfault, htrace⟩ | ⟨c, hchain, hexn, htrace, -⟩
    · exact ⟨c, (hI.rx_chain hchain rfl h.holds).2, htrace, .rxFault hfault⟩
    · exact ⟨c, (hI.rx_chain hchain rfl h.holds).2, htrace, .rx hexn⟩

private theorem Holds.ready (h : Holds addr I s) :
    Holds addr I { s with rxRdy := true } :=
  ⟨⟨h.wf.rxCbs, h.wf.rbuf, h.wf.txCbs, h.wf.wbuf⟩, h.addr, h.holds⟩

/-- **`run_io`** keeps a steady property. -/
theorem runIo_steady (hI : Steady R C addr I) (h : Holds addr I s)
    (events : UInt32) (check : ConnCheck) (rin : List ReadRes)
    (wout : List WriteRes) :
    (∃ s', Sock.runIo events check rin wout s = .ok () s' ∧
      Ran addr I s s') ∨
    ∃ e s', Sock.runIo events check rin wout s = .error e s' ∧
      Stopped addr I e s' := by
  have hin : (∃ s', (if events &&& EPOLLIN ≠ 0 then Sock.runIn rin
        else pure () : EStateM Exn (Sock W R C) Unit) s = .ok () s' ∧
        Ran addr I s s') ∨
      ∃ e s', (if events &&& EPOLLIN ≠ 0 then Sock.runIn rin
        else pure () : EStateM Exn (Sock W R C) Unit) s = .error e s' ∧
        Stopped addr I e s' := by
    by_cases hbit : events &&& EPOLLIN ≠ 0
    · rw [if_pos hbit]
      rcases rx_steady hI h.ready rin with ⟨t, hrun, ht⟩ | hstop
      · exact .inl ⟨t, hrun, ht.toHolds, ht.nread, ht.npoint, ht.live⟩
      · exact .inr hstop
    · rw [if_neg hbit]
      exact .inl ⟨s, rfl, h.ran⟩
  rw [Sock.runIo_eq]
  rcases hin with ⟨t, hrun, ht⟩ | ⟨e, t, hrun, hstop⟩
  · rw [bind_of_ok hrun]
    by_cases hbit : events &&& EPOLLOUT ≠ 0
    · rw [if_pos hbit]
      rcases runOut_steady hI ht.toHolds check wout with
        ⟨u, hout, hu⟩ | hstop
      · exact .inl ⟨u, hout, ht.trans hu⟩
      · exact .inr hstop
    · rw [if_neg hbit]
      exact .inl ⟨t, rfl, ht⟩
  · exact .inr ⟨e, t, bind_of_error hrun, hstop⟩

/-- **`read`** keeps a steady property that the new operation does not
break. -/
theorem read_steady {J : Queues W → Prop} (hI : Steady R C addr I)
    (h : Holds addr J s) {op : IORx W}
    (hop : J s.view → I (s.view.queued [{ op with serial := s.nread }]))
    (rin : List ReadRes) :
    (∃ s', Sock.read op rin s = .ok () s' ∧ Holds addr I s' ∧
      s'.nread = s.nread + 1 ∧ s'.npoint = s.npoint ∧
      (0 < op.need → s.view.Live → s'.view.Live)) ∨
    ∃ e s', Sock.read op rin s = .error e s' ∧
      (Stopped addr J e s' ∨ Stopped addr I e s') := by
  rcases Nat.eq_zero_or_pos s.rxCbs.space with hfull | hroom
  · obtain ⟨e, hthrow, hexn⟩ := Sock.read_throws hfull op rin
    exact .inr ⟨e, s, hthrow, .inl ⟨s.view, h.holds, rfl, .buffer hexn⟩⟩
  have hview := Sock.enqueued_view h.wf hroom op
  have hqueued : Holds addr I (s.enqueued op) := by
    refine ⟨h.wf.enqueued hroom op, h.addr, ?_⟩
    rw [hview]
    exact hop h.holds
  have hlive : 0 < op.need → s.view.Live → (s.enqueued op).view.Live := by
    intro hneed hlive
    rw [hview]
    intro op' hop'
    simp only [Queues.Live, Sock.view] at hlive hop'
    cases hlist : s.rxCbs.toList with
    | nil =>
        rw [hlist] at hop'
        cases hop'
        exact hneed
    | cons first rest =>
        rw [hlist] at hop' hlive
        exact hlive op' hop'
  rw [Sock.read_ok h.wf hroom]
  cases s.rxRdy with
  | false => exact .inl ⟨_, rfl, hqueued, rfl, rfl, hlive⟩
  | true =>
      rcases rx_steady hI hqueued rin with ⟨t, hrun, ht⟩ | ⟨e, t, hrun, hstop⟩
      · exact .inl ⟨t, hrun, ht.toHolds, ht.nread, ht.npoint,
          fun hneed hl => ht.live (hlive hneed hl)⟩
      · exact .inr ⟨e, t, hrun, .inr hstop⟩

/-- The trace only grows. -/
theorem trace_steady (addr : Nat) (t : List Event) :
    Steady R C addr (fun q : Queues W => t <+: q.trace) where
  rx := by
    intro q q' _ h hstep
    cases hstep with
    | recvd b bs hfit => exact h.trans (List.prefix_append ..)
    | skip op ops n hops hcb hlen hneed => exact h
    | fire op ops cb r w hops hcb hpos hneed hcall =>
        exact h.trans (List.prefix_append ..)
    | finish op ops hops hneed => exact h
  tx := by
    intro q q' h hstep
    cases hstep with
    | accepted k hcredit hbusy hk => exact h.trans (List.prefix_append ..)
    | fire c pt pts f w hcredit hpts hroom hlen hcb hcall =>
        exact h.trans (List.prefix_append ..)
    | pay c pt pts hcredit hpts hroom hlen =>
        exact h.trans (List.prefix_append ..)
    | spent c hcredit hpts => exact h
    | overrun c hcredit hfull => exact h

end Steady

end Mutated.Ports
