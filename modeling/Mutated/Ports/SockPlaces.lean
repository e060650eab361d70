import Mutated.Ports.SockWire

/-!
# Where in the ring a request is written

What `write_emplace` adds depends on the slot its first byte goes to.  `Lays`
says of a call which bytes it adds behind a given slot.  Only the calls that
add bytes move `tail_`, so the slot is known from the number of all bytes that
were ever added: `Placed`.

`emplaced_whole`: an object that the ring does not cut is added as it is.
-/

namespace Mutated.Ports

open Mutated.Verified.Circular
open Mutated.Verified.Exec

variable {W : Type} {R C : ℕ+}

/-! ## Bytes behind a slot -/

/-- A call that returns has added bytes that are right behind the slot `tail_`,
and nothing else. -/
def Lays (P : Nat → List UInt8 → Prop) (x : EStateM Exn (Sock W R C) Unit) :
    Prop :=
  ∀ s s' : Sock W R C, s.WF → x s = .ok () s' →
    ∃ (b : Buffer UInt8 C) (bytes : List UInt8), s' = { s with wbuf := b } ∧
      b.WF ∧ P s.wbuf.tail bytes ∧ b.toList = s.wbuf.toList ++ bytes ∧
      b.tail = (s.wbuf.tail + bytes.length) % C

/-- Two calls: the second one adds its bytes behind those of the first. -/
theorem Lays.bind {P Q : Nat → List UInt8 → Prop}
    {x y : EStateM Exn (Sock W R C) Unit} (hx : Lays P x) (hy : Lays Q y) :
    Lays (fun tail bytes => ∃ u v, bytes = u ++ v ∧ P tail u ∧
      Q ((tail + u.length) % C) v) (x >>= fun _ => y) := by
  intro s t h hrun
  obtain ⟨⟨⟩, u, hfirst, hrest⟩ := bind_eq_ok.mp hrun
  obtain ⟨b, bytes, rfl, hb, hP, hlist, htail⟩ := hx _ _ h hfirst
  obtain ⟨b', bytes', rfl, hb', hQ, hlist', htail'⟩ :=
    hy _ _ (show ({ s with wbuf := b } : Sock W R C).WF from
      ⟨h.rxCbs, h.rbuf, h.txCbs, hb⟩) hrest
  simp only [htail] at hQ htail'
  refine ⟨b', bytes ++ bytes', rfl, hb', ⟨_, _, rfl, hP, hQ⟩, ?_, ?_⟩
  · rw [hlist', hlist, List.append_assoc]
  · rw [htail', Nat.mod_add_mod, List.length_append, Nat.add_assoc]

theorem Lays.mono {P Q : Nat → List UInt8 → Prop}
    {x : EStateM Exn (Sock W R C) Unit} (hx : Lays P x)
    (hPQ : ∀ tail bytes, tail < (C : Nat) → P tail bytes → Q tail bytes) :
    Lays Q x := by
  intro s s' h hrun
  obtain ⟨b, bytes, hs', hb, hP, hrest⟩ := hx s s' h hrun
  exact ⟨b, bytes, hs', hb, hPQ _ _ h.wbuf.tail_lt hP, hrest⟩

/-- Which slot they go to does not matter for most bytes. -/
theorem Lays.puts {P : List UInt8 → Prop} {x : EStateM Exn (Sock W R C) Unit}
    (hx : Lays (fun _ => P) x) : Puts P x := by
  intro s s' h hrun
  obtain ⟨b, bytes, hs', hb, hP, hlist, -⟩ := hx s s' h hrun
  exact ⟨b, bytes, hs', hb, hP, hlist⟩

namespace Sock

/-- Bytes that were stored behind the tail and then committed. -/
private theorem lays_written {P : Nat → List UInt8 → Prop}
    {x : EStateM Exn (Sock W R C) Unit} {n : Nat} (bytes : Nat → List UInt8)
    (hP : ∀ tail, tail < (C : Nat) →
      (bytes tail).length = n ∧ P tail (bytes tail))
    (hok : ∀ {s : Sock W R C}, s.WF → 0 < n → n ≤ s.wbuf.space →
      x s = .ok () (s.written (bytes s.wbuf.tail)))
    (hthrow : ∀ {s : Sock W R C}, n = 0 ∨ s.wbuf.space < n →
      ∃ e, x s = .error e s) : Lays P x := by
  intro s s' h hrun
  obtain ⟨hlen, hbytes⟩ := hP s.wbuf.tail h.wbuf.tail_lt
  by_cases hfit : 0 < n ∧ n ≤ s.wbuf.space
  · cases (hok h hfit.1 hfit.2).symm.trans hrun
    have hroom := hlen.trans_le hfit.2
    exact ⟨_, _, rfl, (h.wbuf.stored _).committed hroom, hbytes,
      written_toList h hroom, rfl⟩
  · obtain ⟨e, hfail⟩ := hthrow (show n = 0 ∨ s.wbuf.space < n by omega)
    cases hfail.symm.trans hrun

/-- `write` adds its argument. -/
theorem write_lays (data : List UInt8) :
    Lays (fun _ bytes => bytes = data)
      (write data : EStateM Exn (Sock W R C) Unit) :=
  lays_written (fun _ => data) (fun _ _ => ⟨rfl, rfl⟩)
    (fun h hpos hfit => write_ok h hpos hfit) fun hbad => write_throws hbad

/-- `write_emplace` adds what its copies read. -/
theorem writeEmplace_lays (obj : List UInt8) (stack : Nat → UInt8) :
    Lays (fun tail bytes => bytes = emplaced C tail obj stack)
      (writeEmplace obj stack : EStateM Exn (Sock W R C) Unit) := by
  refine lays_written (fun tail => emplaced C tail obj stack)
    (fun tail htail => ⟨length_emplaced obj stack htail, rfl⟩)
    (fun h hpos hfit => writeEmplace_ok h hpos hfit) fun hbad => ?_
  obtain ⟨e, hprep⟩ := writePrepare_throws hbad
  exact ⟨e, bind_of_error hprep⟩

/-- Room that is asked for and committed has whatever was there. -/
theorem prepareCommit_lays (m n : Nat) :
    Lays (fun _ bytes => bytes.length = n) (do
      let _ ← writePrepare m
      writeCommit n : EStateM Exn (Sock W R C) Unit) := by
  intro s s' h hrun
  obtain ⟨b, bytes, rfl, hb, hlen, hlist⟩ :=
    prepareCommit_appends m n s s' h hrun
  refine ⟨b, bytes, rfl, hb, hlen, hlist, ?_⟩
  obtain ⟨ps, t, hprep, hcommit⟩ := bind_eq_ok.mp hrun
  have hsame : t = s := by
    by_cases hfit : 0 < m ∧ m ≤ s.wbuf.space
    · cases (writePrepare_ok h hfit.1 hfit.2).symm.trans hprep
      rfl
    · obtain ⟨e, hthrow⟩ := writePrepare_throws
        (show m = 0 ∨ s.wbuf.space < m by omega)
      cases hthrow.symm.trans hprep
  subst hsame
  by_cases hfit : 0 < n ∧ n ≤ t.wbuf.space
  · have hok := (writeCommit_ok h hfit.1 hfit.2).symm.trans hcommit
    simp only [EStateM.Result.ok.injEq, Sock.mk.injEq, true_and,
      and_true] at hok
    rw [← hok, hlen]
    rfl
  · obtain ⟨e, hthrow⟩ := writeCommit_throws
      (show n = 0 ∨ t.wbuf.space < n by omega)
    cases hthrow.symm.trans hcommit

/-- **An object that the ring does not cut** is added as it is. -/
theorem emplaced_whole {tail : Nat} {obj : List UInt8}
    (hwhole : tail + obj.length ≤ C) (stack : Nat → UInt8) :
    emplaced C tail obj stack = obj := by
  rw [emplaced]
  by_cases hend : (C : Nat) ≤ tail + obj.length
  · have hcut : (C : Nat) - tail = obj.length := by omega
    rw [if_pos hend, hcut, block_blit, Nat.sub_self]
    exact List.append_nil _
  · exact if_neg hend

end Sock

/-! ## The slot of the next byte -/

/-- `tail_` is where all the bytes that were ever added end. -/
structure Placed (s : Sock W R C) : Prop where
  wf : s.WF
  tail : s.wbuf.tail = s.view.stream.length % C

theorem Placed.init (addr : Nat) (rmem wmem : Nat → UInt8) (w : W) :
    Placed (Sock.init addr rmem wmem w : Sock W R C) :=
  ⟨Sock.init_wf _ _ _ _, (Nat.zero_mod _).symm⟩

namespace Placed

variable {s s' : Sock W R C}

/-- A call that moves neither the bytes nor `tail_`. -/
private theorem of_stream (h : Placed s) {α : Type} {a : α}
    {r : EStateM.Result Exn (Sock W R C) α}
    (hleaves : Leaves s.view.stream r) (hr : r = .ok a s')
    (htail : s'.wbuf.tail = s.wbuf.tail) :
    Placed s' ∧ s'.view.stream = s.view.stream := by
  subst hr
  cases hleaves with
  | ok hwf hstream => exact ⟨⟨hwf, by rw [htail, hstream, h.tail]⟩, hstream⟩

/-- What `Lays` says of a call from the start. -/
theorem lays (h : Placed s) {P : Nat → List UInt8 → Prop}
    {x : EStateM Exn (Sock W R C) Unit} (hx : Lays P x)
    (hrun : x s = .ok () s') :
    Placed s' ∧ ∃ bytes, P (s.view.stream.length % C) bytes ∧
      s'.view.stream = s.view.stream ++ bytes := by
  obtain ⟨b, bytes, rfl, hb, hP, hlist, htail⟩ := hx s s' h.wf hrun
  have hstream : ({ s with wbuf := b } : Sock W R C).view.stream =
      s.view.stream ++ bytes := by
    show accepted s.trace ++ b.toList = accepted s.trace ++ s.wbuf.toList ++ _
    rw [hlist, List.append_assoc]
  refine ⟨⟨⟨h.wf.rxCbs, h.wf.rbuf, h.wf.txCbs, hb⟩, ?_⟩, bytes, ?_, hstream⟩
  · show b.tail = _
    rw [htail, hstream, List.length_append, h.tail, Nat.mod_add_mod]
  · rwa [← h.tail]

theorem tryTx (h : Placed s) {wout : List WriteRes}
    (hrun : Sock.tryTx wout s = .ok () s') :
    Placed s' ∧ s'.view.stream = s.view.stream := by
  apply h.of_stream (Leaves.tryTx h.wf rfl wout) hrun
  rcases Sock.tryTx_cases h.wf wout with ⟨t, hok, hran⟩ | ⟨e, t, hthrow, -⟩
  · cases hok.symm.trans hrun
    exact hran.tail
  · cases hthrow.symm.trans hrun

/-- A call on the world alone. -/
theorem onWorld (h : Placed s) {α : Type} {x : EStateM Exn W α} {a : α}
    (hrun : Sock.onWorld x s = .ok a s') :
    Placed s' ∧ s'.view.stream = s.view.stream := by
  apply h.of_stream (Leaves.onWorld h.wf rfl x) hrun
  have hkeeps : Keeps (fun t : Sock W R C => t.wbuf.tail)
      (Sock.onWorld x) := keeps_zoom (by exact fun _ _ => rfl) x
  exact hkeeps.of_ok hrun

theorem writeCbPoint (h : Placed s) {cb : Option (TxCB W)}
    {data : Option Nat} (hrun : Sock.writeCbPoint cb data s = .ok () s') :
    Placed s' ∧ s'.view.stream = s.view.stream := by
  apply h.of_stream (Leaves.writeCbPoint h.wf rfl cb data) hrun
  rcases Sock.writeCbPoint_cases h.wf cb data with
    ⟨-, hok⟩ | ⟨e, hthrow, -⟩
  · cases hok.symm.trans hrun
    rfl
  · cases hthrow.symm.trans hrun

/-- Receiving leaves `wbuf_` alone. -/
private theorem rx_tail {s s' : Sock W R C} (h : s.WF) {rin : List ReadRes}
    (hrun : Sock.rx rin s = .ok () s') : s'.wbuf.tail = s.wbuf.tail := by
  rcases Sock.rx_cases rin h with ⟨t, hok, -, houter, -⟩ | ⟨e, t, hthrow, -⟩
  · cases hok.symm.trans hrun
    exact congrArg (fun side => side.1.2.2.2.2.1.tail) houter
  · cases hthrow.symm.trans hrun

theorem read (h : Placed s) {op : IORx W} {rin : List ReadRes}
    (hrun : Sock.read op rin s = .ok () s') :
    Placed s' ∧ s'.view.stream = s.view.stream := by
  apply h.of_stream (Leaves.read h.wf rfl op rin) hrun
  rcases Nat.eq_zero_or_pos s.rxCbs.space with hfull | hroom
  · obtain ⟨e, hthrow, -⟩ := Sock.read_throws hfull op rin
    cases hthrow.symm.trans hrun
  · rw [Sock.read_ok h.wf hroom] at hrun
    cases hrdy : s.rxRdy with
    | false =>
        rw [hrdy] at hrun
        cases hrun
        rfl
    | true =>
        rw [hrdy] at hrun
        have htail := rx_tail (h.wf.enqueued hroom op) hrun
        exact htail

theorem runIo (h : Placed s) {events : UInt32} {check : ConnCheck}
    {rin : List ReadRes} {wout : List WriteRes}
    (hrun : Sock.runIo events check rin wout s = .ok () s') :
    Placed s' ∧ s'.view.stream = s.view.stream := by
  apply h.of_stream (Leaves.runIo h.wf rfl events check rin wout) hrun
  rw [Sock.runIo_eq] at hrun
  obtain ⟨⟨⟩, t, hin, hout⟩ := bind_eq_ok.mp hrun
  have hreceived : t.WF ∧ t.wbuf.tail = s.wbuf.tail := by
    by_cases hbit : events &&& EPOLLIN ≠ 0
    · rw [if_pos hbit] at hin
      have hready : ({ s with rxRdy := true } : Sock W R C).WF :=
        ⟨h.wf.rxCbs, h.wf.rbuf, h.wf.txCbs, h.wf.wbuf⟩
      have htail := rx_tail hready hin
      refine ⟨?_, htail⟩
      rcases Sock.rx_cases rin hready with
        ⟨u, hok, hwf, -⟩ | ⟨e, u, hthrow, -⟩
      · cases hok.symm.trans hin
        exact hwf
      · cases hthrow.symm.trans hin
    · rw [if_neg hbit] at hin
      cases hin
      exact ⟨h.wf, rfl⟩
  by_cases hbit : events &&& EPOLLOUT ≠ 0
  · rw [if_pos hbit] at hout
    rcases Sock.runOut_cases hreceived.1 check wout with
      ⟨u, hok, hran⟩ | ⟨e, u, hthrow, -⟩
    · cases hok.symm.trans hout
      exact hran.tail.trans hreceived.2
    · cases hthrow.symm.trans hout
  · rw [if_neg hbit] at hout
    cases hout
    exact hreceived.2

end Placed

end Mutated.Ports
