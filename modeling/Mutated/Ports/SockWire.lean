import Mutated.Ports.SockOutput
import Mutated.Ports.SockRuns

/-!
# What a request adds to the wire

`Puts P` says of a call that writes which bytes it adds at the end of `wbuf_`,
not only how many as `Appends` does.  After that the bytes of a request only
move from `wbuf_` to the wire, so the calls that transmit and receive keep the
stream of both, and a call that throws leaves an initial part of it with the
kernel.
-/

namespace Mutated.Ports

open Mutated.Verified.Circular
open Mutated.Verified.Exec

variable {W : Type} {R C : ℕ+}

/-! ## Which bytes are added -/

/-- A call that returns has added bytes with `P` to `wbuf_`, and nothing
else. -/
def Puts (P : List UInt8 → Prop) (x : EStateM Exn (Sock W R C) Unit) : Prop :=
  ∀ s s' : Sock W R C, s.WF → x s = .ok () s' →
    ∃ (b : Buffer UInt8 C) (bytes : List UInt8), s' = { s with wbuf := b } ∧
      b.WF ∧ P bytes ∧ b.toList = s.wbuf.toList ++ bytes

theorem Appends.puts {n : Nat} {x : EStateM Exn (Sock W R C) Unit}
    (hx : Appends n x) : Puts (fun bytes => bytes.length = n) x := hx

theorem Puts.mono {P Q : List UInt8 → Prop}
    {x : EStateM Exn (Sock W R C) Unit} (hx : Puts P x)
    (hPQ : ∀ bytes, P bytes → Q bytes) : Puts Q x := by
  intro s s' h hrun
  obtain ⟨b, bytes, hs', hb, hP, hlist⟩ := hx s s' h hrun
  exact ⟨b, bytes, hs', hb, hPQ bytes hP, hlist⟩

theorem Puts.bind {P Q : List UInt8 → Prop}
    {x y : EStateM Exn (Sock W R C) Unit} (hx : Puts P x) (hy : Puts Q y) :
    Puts (fun bytes => ∃ u v, bytes = u ++ v ∧ P u ∧ Q v)
      (x >>= fun _ => y) := by
  intro s t h hrun
  obtain ⟨⟨⟩, u, hfirst, hrest⟩ := bind_eq_ok.mp hrun
  obtain ⟨b, bytes, rfl, hb, hP, hlist⟩ := hx _ _ h hfirst
  obtain ⟨b', bytes', rfl, hb', hQ, hlist'⟩ :=
    hy _ _ (show ({ s with wbuf := b } : Sock W R C).WF from
      ⟨h.rxCbs, h.rbuf, h.txCbs, hb⟩) hrest
  refine ⟨b', bytes ++ bytes', rfl, hb', ⟨_, _, rfl, hP, hQ⟩, ?_⟩
  rw [hlist', ← List.append_assoc]
  exact congrArg (· ++ bytes') hlist

/-- `write` adds its argument. -/
theorem Sock.write_puts (data : List UInt8) :
    Puts (fun bytes => bytes = data)
      (Sock.write data : EStateM Exn (Sock W R C) Unit) := by
  intro s s' h hrun
  rcases Sock.write_cases h data with ⟨hpos, hfit, hok⟩ | ⟨e, hthrow⟩
  · cases hok.symm.trans hrun
    exact ⟨_, data, rfl, (h.wbuf.stored data).committed hfit, rfl,
      Sock.written_toList h hfit⟩
  · cases hthrow.symm.trans hrun

/-- `write_emplace` adds what its copies read, and then `x` adds its own. -/
theorem Sock.writeEmplace_then {P : List UInt8 → Prop}
    {x : EStateM Exn (Sock W R C) Unit} (hx : Puts P x) {s s' : Sock W R C}
    (h : s.WF) {obj : List UInt8} {stack : Nat → UInt8}
    (hrun : (Sock.writeEmplace obj stack >>= fun _ => x) s = .ok () s') :
    ∃ (b : Buffer UInt8 C) (bytes : List UInt8), s' = { s with wbuf := b } ∧
      b.WF ∧ P bytes ∧ b.toList = s.wbuf.toList ++
        (Sock.emplaced C s.wbuf.tail obj stack ++ bytes) := by
  have hlen := Sock.length_emplaced obj stack h.wbuf.tail_lt
  obtain ⟨⟨⟩, t, hfirst, hrest⟩ := bind_eq_ok.mp hrun
  by_cases hfit : 0 < obj.length ∧ obj.length ≤ s.wbuf.space
  · cases (Sock.writeEmplace_ok h hfit.1 hfit.2).symm.trans hfirst
    have hroom := hlen.trans_le hfit.2
    obtain ⟨b, bytes, rfl, hb, hP, hlist⟩ :=
      hx _ _ (h.written hroom) hrest
    refine ⟨b, bytes, rfl, hb, hP, ?_⟩
    rw [hlist, Sock.written_toList h hroom, List.append_assoc]
  · obtain ⟨e, hthrow⟩ := Sock.writePrepare_throws
      (show obj.length = 0 ∨ s.wbuf.space < obj.length by omega)
    cases (bind_of_error hthrow).symm.trans hfirst

/-! ## The bytes of a socket -/

/-- The outcome of a call that keeps the stream `w` of the bytes on the wire
and those waiting; when it throws, what the kernel has is the start of it. -/
inductive Leaves (w : List UInt8) {α : Type} :
    EStateM.Result Exn (Sock W R C) α → Prop
  | ok {a : α} {s : Sock W R C} (wf : s.WF) (stream : s.view.stream = w) :
      Leaves w (.ok a s)
  | error {e : Exn} {s : Sock W R C} (start : accepted s.trace <+: w) :
      Leaves w (.error e s)

namespace Leaves

variable {w : List UInt8} {s : Sock W R C} {α β : Type}

theorem stream_eq {r : EStateM.Result Exn (Sock W R C) α}
    (h : Leaves w r) {a : α} (hr : r = .ok a s) : s.view.stream = w := by
  subst hr
  cases h with
  | ok hwf hstream => exact hstream

theorem bind {x : EStateM Exn (Sock W R C) α}
    {f : α → EStateM Exn (Sock W R C) β} (hx : Leaves w (x s))
    (hf : ∀ a t, t.WF → t.view.stream = w → Leaves w (f a t)) :
    Leaves w ((x >>= f) s) := by
  cases hrun : x s with
  | ok a t =>
      rw [hrun] at hx
      rw [bind_of_ok hrun]
      cases hx with
      | ok hwf hstream => exact hf a t hwf hstream
  | error e t =>
      rw [hrun] at hx
      rw [bind_of_error hrun]
      cases hx with
      | error hstart => exact .error hstart

/-- A call on the world alone. -/
theorem onWorld (h : s.WF) (hw : s.view.stream = w) (x : EStateM Exn W α) :
    Leaves w (Sock.onWorld x s) := by
  cases hrun : x s.world with
  | ok a g =>
      rw [Sock.onWorld, zoom_of_ok hrun]
      exact .ok ⟨h.rxCbs, h.rbuf, h.txCbs, h.wbuf⟩ hw
  | error e g =>
      rw [Sock.onWorld, zoom_of_error hrun]
      exact .error ⟨s.view.wbuf, hw⟩

/-- What the small steps say of a call. -/
private theorem of_stopped {addr : Nat} {e : Exn} {t : Sock W R C}
    (h : Stopped addr (fun q => q.stream = w) e t) :
    accepted t.trace <+: w := by
  obtain ⟨q, hq, htrace, -⟩ := h
  rw [htrace, ← hq]
  exact List.prefix_append ..

private theorem steady (w : List UInt8) (addr : Nat) :
    Steady R C addr (fun q : Queues W => q.stream = w) where
  rx := by
    intro q q' _ hq hstep
    rw [← hq]
    cases hstep with
    | recvd b bs hfit => simp [Queues.stream, accepted]
    | skip op rest n hops hcb hlen hneed => rfl
    | fire op rest cb r w' hops hcb hpos hneed hcall =>
        simp [Queues.stream, Queues.eat, accepted]
    | finish op rest hops hneed => rfl
  tx := fun hq hstep => (TxStep.stream_eq hstep).1.trans hq

theorem tryTx (h : s.WF) (hw : s.view.stream = w) (wout : List WriteRes) :
    Leaves w (Sock.tryTx wout s) := by
  rcases tryTx_steady (steady w s.addr) ⟨h, rfl, hw⟩ wout with
    ⟨t, hrun, ht⟩ | ⟨e, t, hrun, hstop⟩
  · rw [hrun]
    exact .ok ht.wf ht.holds
  · rw [hrun]
    exact .error (of_stopped hstop)

theorem read (h : s.WF) (hw : s.view.stream = w) (op : IORx W)
    (rin : List ReadRes) : Leaves w (Sock.read op rin s) := by
  have hop : s.view.stream = w →
      (s.view.queued [{ op with serial := s.nread }]).stream = w :=
    fun hq => hq
  have hholds : Holds s.addr (fun q => q.stream = w) s := ⟨h, rfl, hw⟩
  rcases read_steady (steady w s.addr) hholds hop rin with
    ⟨t, hrun, ht, -⟩ | ⟨e, t, hrun, hstop | hstop⟩
  · rw [hrun]
    exact .ok ht.wf ht.holds
  · rw [hrun]
    exact .error (of_stopped hstop)
  · rw [hrun]
    exact .error (of_stopped hstop)

theorem runIo (h : s.WF) (hw : s.view.stream = w) (events : UInt32)
    (check : ConnCheck) (rin : List ReadRes) (wout : List WriteRes) :
    Leaves w (Sock.runIo events check rin wout s) := by
  rcases runIo_steady (steady w s.addr) ⟨h, rfl, hw⟩ events check rin wout with
    ⟨t, hrun, ht⟩ | ⟨e, t, hrun, hstop⟩
  · rw [hrun]
    exact .ok ht.wf ht.holds
  · rw [hrun]
    exact .error (of_stopped hstop)

theorem writeCbPoint (h : s.WF) (hw : s.view.stream = w)
    (cb : Option (TxCB W)) (data : Option Nat) :
    Leaves w (Sock.writeCbPoint cb data s) := by
  rcases Sock.writeCbPoint_cases h cb data with
    ⟨hroom, hrun⟩ | ⟨e, hrun, -⟩
  · rw [hrun]
    refine .ok (h.pointed hroom _ _) ?_
    have hquiet : accepted (s.pointed cb data).trace = accepted s.trace := by
      simp only [Sock.pointed]
      split <;> simp [accepted]
    rw [← hw]
    simp only [Queues.stream, Sock.view]
    rw [hquiet]
    rfl
  · rw [hrun]
    exact .error ⟨s.view.wbuf, hw⟩

/-- Adding bytes before the rest of a call. -/
theorem puts {P : List UInt8 → Prop} {x : EStateM Exn (Sock W R C) Unit}
    {f : Unit → EStateM Exn (Sock W R C) β} (hx : Puts P x) (hq : Writes x)
    (h : s.WF) (hw : s.view.stream = w) (hsome : ∃ bytes, P bytes)
    (hf : ∀ bytes t, P bytes → t.WF → t.view.stream = w ++ bytes →
      Leaves (w ++ bytes) (f () t)) :
    ∃ bytes, P bytes ∧ Leaves (w ++ bytes) ((x >>= f) s) := by
  cases hrun : x s with
  | ok _ t =>
      obtain ⟨b, bytes, rfl, hb, hP, hlist⟩ := hx s t h hrun
      refine ⟨bytes, hP, ?_⟩
      rw [bind_of_ok hrun]
      refine hf bytes _ hP ⟨h.rxCbs, h.rbuf, h.txCbs, hb⟩ ?_
      show accepted s.trace ++ b.toList = w ++ bytes
      rw [hlist, ← List.append_assoc]
      exact congrArg (· ++ bytes) hw
  | error e t =>
      obtain ⟨bytes, hP⟩ := hsome
      refine ⟨bytes, hP, ?_⟩
      have htrace : t.trace = s.trace :=
        congrArg (·.2.2.2.1) (hq.quiet.of_error hrun)
      rw [bind_of_error hrun]
      refine .error ?_
      rw [htrace, ← hw]
      exact (List.prefix_append _ s.view.wbuf).trans (List.prefix_append ..)

end Leaves

end Mutated.Ports
