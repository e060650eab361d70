import Mutated.Ports.SockTx

/-!
# The bytes that are sent

A program that writes to a `Sock` either copies its data with `write`, or
asks for room with `write_prepare`, stores its data through the pointers it
is given, and commits them.  Calls that transmit may come anywhere in
between, also between the preparation and the commit.

`Writer` is such a program: the socket, the pointers it holds, and what it
has stored through them.  It also remembers what it has written so far, which
is what the bytes on the wire are compared with.

## Main results

`run_stream`: the accepted bytes followed by the bytes in `wbuf_` are exactly
the committed writes, after every run.
-/

namespace Mutated.Ports

open Mutated.Verified.Circular
open Mutated.Verified.Exec
open Relation (ReflTransGen)

variable {W : Type} {R C : ℕ+}

/-! ## Runs -/

/-- The calls of a program that writes.  A callback point has a callback that
is not empty. -/
inductive TxCall (W : Type)
  | write (data : List UInt8)
  | writePrepare (len : Nat)
  | fill (data : List UInt8)
  | writeCommit (len : Nat)
  | writeCbPoint (cb : TxCB W) (data : Option Nat)
  | tryTx (wout : List WriteRes)
  | runIo (check : ConnCheck) (wout : List WriteRes)

/-- A socket and the program that writes to it: the pointers of the last
`write_prepare` with its length, what was stored through them, the committed
writes so far, and how many of their bytes came before each point. -/
structure Writer (W : Type) (R C : ℕ+) where
  sock : Sock W R C
  prep : Option (Nat × Option Nat × Nat × Nat)
  filled : List UInt8
  sofar : List UInt8
  points : List Nat

namespace Writer

def init (addr : Nat) (rmem wmem : Nat → UInt8) (w : W) : Writer W R C where
  sock := .init addr rmem wmem w
  prep := none
  filled := []
  sofar := []
  points := []

/-- A call, when the program goes on after it.  A write or a point that does
not fit throws, and the program may go on; an exception out of the transmit
path ends it.  Storing more than was prepared, committing more than was
stored, and a point behind bytes that have all left already are not calls of
a program. -/
def step (p : Writer W R C) : TxCall W → Option (Writer W R C)
  | .write data =>
      match Sock.write data p.sock with
      | .ok _ s => some { p with
          sock := s, prep := none, filled := [], sofar := p.sofar ++ data }
      | .error _ s => some { p with sock := s }
  | .writePrepare len =>
      match Sock.writePrepare len p.sock with
      | .ok (p1, p2, n1) s => some { p with
          sock := s, prep := some (p1, p2, n1, len), filled := [] }
      | .error _ s => some { p with sock := s }
  | .fill data =>
      match p.prep with
      | none => none
      | some (p1, p2, n1, len) =>
          if data.length ≤ len then
            some { p with
              sock := { p.sock with wbuf := p.sock.wbuf.fill p1 p2 n1 data }
              filled := data }
          else none
  | .writeCommit len =>
      if len ≤ p.filled.length then
        match Sock.writeCommit len p.sock with
        | .ok _ s => some { p with
            sock := s, prep := none, filled := []
            sofar := p.sofar ++ p.filled.take len }
        | .error _ s => some { p with sock := s }
      else none
  | .writeCbPoint cb data =>
      if p.sock.wbuf.items = 0 then none
      else
        match Sock.writeCbPoint (some cb) data p.sock with
        | .ok _ s => some { p with
            sock := s, points := p.points ++ [p.sofar.length] }
        | .error _ s => some { p with sock := s }
  | .tryTx wout =>
      match Sock.tryTx wout p.sock with
      | .ok _ s => some { p with sock := s }
      | .error _ _ => none
  | .runIo check wout =>
      match Sock.runIo EPOLLOUT check [] wout p.sock with
      | .ok _ s => some { p with sock := s }
      | .error _ _ => none

/-- A run of calls. -/
def run : List (TxCall W) → Writer W R C → Option (Writer W R C)
  | [], p => some p
  | c :: cs, p => (p.step c).bind (run cs)

end Writer

/-- The bytes the kernel accepted. -/
def accepted (trace : List Event) : List UInt8 :=
  trace.flatMap fun
    | .accepted bytes => bytes
    | _ => []

@[simp] theorem accepted_append (t u : List Event) :
    accepted (t ++ u) = accepted t ++ accepted u := List.flatMap_append ..

/-! ## Transmitting moves bytes from the ring to the wire -/

/-- The bytes on the wire and those waiting, in order. -/
def Queues.stream (q : Queues W) : List UInt8 := accepted q.trace ++ q.wbuf

theorem TxStep.stream_eq {R addr : Nat} {q q' : Queues W}
    (hstep : Queues.TxStep R addr q q') :
    q'.stream = q.stream ∧ q'.wbuf.length ≤ q.wbuf.length := by
  cases hstep with
  | accepted k hcredit hbusy hk =>
      constructor
      · simp [Queues.stream, accepted]
      · simp
  | fire c pt pts f w hcredit hpts hroom hlen hcb hcall =>
      exact ⟨by simp [Queues.stream, accepted], Nat.le_refl _⟩
  | pay c pt pts hcredit hpts hroom hlen =>
      exact ⟨by simp [Queues.stream, accepted], Nat.le_refl _⟩
  | spent c hcredit hpts => exact ⟨rfl, Nat.le_refl _⟩
  | overrun c hcredit hfull => exact ⟨rfl, Nat.le_refl _⟩

theorem stream_of_chain {R addr : Nat} {q q' : Queues W}
    (hchain : ReflTransGen (Queues.TxStep R addr) q q') :
    q'.stream = q.stream ∧ q'.wbuf.length ≤ q.wbuf.length := by
  induction hchain with
  | refl => exact ⟨rfl, Nat.le_refl _⟩
  | tail _ hlast ih =>
      obtain ⟨hstream, hlen⟩ := TxStep.stream_eq hlast
      exact ⟨hstream.trans ih.1, Nat.le_trans hlen ih.2⟩

/-! ## The invariant of a run -/

namespace Writer

/-- The pointers the program holds are the free cells from the tail on, and
hold what was stored through them. -/
structure Prepared (b : Buffer UInt8 C) (filled : List UInt8)
    (prep : Nat × Option Nat × Nat × Nat) : Prop where
  pos : 0 < prep.2.2.2
  room : prep.2.2.2 ≤ b.space
  fst : prep.1 = b.tail
  snd : prep.2.1 = if C ≤ b.tail + prep.2.2.2 then some 0 else none
  cut : prep.2.2.1 = min prep.2.2.2 (C - b.tail)
  fits : filled.length ≤ prep.2.2.2
  stored : window C b.buf b.tail filled.length = filled

/-- **The invariant**: what was written is on the wire or waiting. -/
structure Streams (p : Writer W R C) : Prop where
  wf : p.sock.WF
  stream : p.sock.view.stream = p.sofar
  prepared : ∀ prep, p.prep = some prep →
    Prepared p.sock.wbuf p.filled prep
  unfilled : p.prep = none → p.filled = []

theorem init_streams (addr : Nat) (rmem wmem : Nat → UInt8) (w : W) :
    (init addr rmem wmem w : Writer W R C).Streams where
  wf := Sock.init_wf addr rmem wmem w
  stream := rfl
  prepared := by
    intro prep hprep
    cases hprep
  unfilled := fun _ => rfl

/-- Transmitting leaves the prepared cells alone, and only frees others. -/
private theorem Prepared.of_tx {b b' : Buffer UInt8 C} {filled : List UInt8}
    {prep : Nat × Option Nat × Nat × Nat} (h : Prepared b filled prep)
    (hmem : b'.buf = b.buf) (htail : b'.tail = b.tail)
    (hused : b'.used ≤ b.used) : Prepared b' filled prep := by
  have hspace : b.space = C - b.used := rfl
  have hspace' : b'.space = C - b'.used := rfl
  have hroom := h.room
  refine ⟨h.pos, by omega, ?_, ?_, ?_, h.fits, ?_⟩
  · rw [htail, h.fst]
  · rw [htail, h.snd]
  · rw [htail, h.cut]
  · rw [htail, hmem, h.stored]

/-- A call that transmits keeps the invariant. -/
private theorem Streams.of_tx {p : Writer W R C} {s : Sock W R C}
    (h : p.Streams) (hran : Sock.TxRan p.sock s) :
    Streams { p with sock := s } := by
  obtain ⟨hstream, hlen⟩ := stream_of_chain hran.chain
  simp only [Sock.view, Buffer.length_toList] at hlen
  exact ⟨hran.wf, hstream.trans h.stream, fun prep hprep =>
    (h.prepared prep hprep).of_tx hran.mem hran.tail hlen, h.unfilled⟩

private theorem step_write {p p' : Writer W R C} (h : p.Streams)
    {data : List UInt8} (hstep : p.step (.write data) = some p') :
    p'.Streams := by
  rcases Sock.write_cases h.wf data with ⟨hpos, hfit, hrun⟩ | ⟨e, hrun⟩
  · simp only [step, hrun] at hstep
    cases hstep
    refine ⟨h.wf.written hfit, ?_, ?_, fun _ => rfl⟩
    · have hstream := h.stream
      simp only [Queues.stream, Sock.view] at hstream ⊢
      rw [Sock.written_toList h.wf hfit, ← List.append_assoc]
      exact congrArg (· ++ data) hstream
    · intro prep hprep
      cases hprep
  · simp only [step, hrun] at hstep
    cases hstep
    exact h

private theorem step_writePrepare {p p' : Writer W R C} (h : p.Streams)
    {len : Nat} (hstep : p.step (.writePrepare len) = some p') :
    p'.Streams := by
  by_cases hok : 0 < len ∧ len ≤ p.sock.wbuf.space
  · have hrun := Sock.writePrepare_ok h.wf hok.1 hok.2
    simp only [step, hrun] at hstep
    cases hstep
    refine ⟨h.wf, h.stream, ?_, fun _ => rfl⟩
    intro prep hprep
    cases hprep
    exact ⟨hok.1, hok.2, rfl, rfl, rfl, Nat.zero_le _, rfl⟩
  · obtain ⟨e, hrun⟩ := Sock.writePrepare_throws
      (show len = 0 ∨ p.sock.wbuf.space < len by omega)
    simp only [step, hrun] at hstep
    cases hstep
    exact h

private theorem step_fill {p p' : Writer W R C} (h : p.Streams)
    {data : List UInt8} (hstep : p.step (.fill data) = some p') :
    p'.Streams := by
  cases hprep : p.prep with
  | none =>
      simp only [step, hprep] at hstep
      cases hstep
  | some prep =>
      obtain ⟨p1, p2, n1, len⟩ := prep
      have hold := h.prepared _ hprep
      simp only [step, hprep] at hstep
      by_cases hfits : data.length ≤ len
      · rw [if_pos hfits] at hstep
        cases hstep
        have hfill := Buffer.fill_eq_stored h.wf.wbuf hfits
        have hp1 : p1 = p.sock.wbuf.tail := hold.fst
        have hp2 : p2 = if C ≤ p.sock.wbuf.tail + len then some 0 else none :=
          hold.snd
        have hn1 : n1 = min len (C - p.sock.wbuf.tail) := hold.cut
        have hroom : len ≤ p.sock.wbuf.space := hold.room
        have hspace : p.sock.wbuf.space = C - p.sock.wbuf.used := rfl
        have hread := scatter_window p.sock.wbuf.buf h.wf.wbuf.tail_lt
          (show data.length ≤ C by omega)
        subst hp1 hp2 hn1
        rw [hfill]
        refine ⟨⟨h.wf.rxCbs, h.wf.rbuf, h.wf.txCbs, h.wf.wbuf.stored data⟩,
          ?_, ?_, ?_⟩
        · have hkeep := Buffer.stored_toList h.wf.wbuf
            (show data.length ≤ p.sock.wbuf.space by omega)
          have hstream := h.stream
          simp only [Queues.stream, Sock.view] at hstream ⊢
          rw [hkeep]
          exact hstream
        · intro prep hprep'
          cases hprep'
          exact ⟨hold.pos, hroom, rfl, rfl, rfl, hfits, hread⟩
        · intro hnone
          cases hnone
      · rw [if_neg hfits] at hstep
        cases hstep

private theorem step_writeCommit {p p' : Writer W R C} (h : p.Streams)
    {len : Nat} (hstep : p.step (.writeCommit len) = some p') :
    p'.Streams := by
  by_cases hlen : len ≤ p.filled.length
  · simp only [step, if_pos hlen] at hstep
    rcases Nat.eq_zero_or_pos len with hzero | hpos
    · obtain ⟨e, hrun⟩ := Sock.writeCommit_throws
        (show len = 0 ∨ p.sock.wbuf.space < len from .inl hzero)
      simp only [hrun] at hstep
      cases hstep
      exact h
    · obtain ⟨prep, hprep⟩ : ∃ prep, p.prep = some prep := by
        cases hprep : p.prep with
        | none =>
            rw [h.unfilled hprep, List.length_nil] at hlen
            omega
        | some prep => exact ⟨prep, rfl⟩
      have hold := h.prepared prep hprep
      have hfits := hold.fits
      have hroom := hold.room
      have hrun := Sock.writeCommit_ok h.wf hpos (by omega)
      simp only [hrun] at hstep
      cases hstep
      refine ⟨⟨h.wf.rxCbs, h.wf.rbuf, h.wf.txCbs,
        h.wf.wbuf.committed (by omega)⟩, ?_, ?_, fun _ => rfl⟩
      · have hstream := h.stream
        simp only [Queues.stream, Sock.view] at hstream ⊢
        rw [Buffer.committed_toList h.wf.wbuf, ← List.append_assoc, hstream,
          ← take_window hlen, hold.stored]
      · intro prep hprep'
        cases hprep'
  · simp only [step, if_neg hlen] at hstep
    cases hstep

private theorem step_writeCbPoint {p p' : Writer W R C} (h : p.Streams)
    {cb : TxCB W} {data : Option Nat}
    (hstep : p.step (.writeCbPoint cb data) = some p') : p'.Streams := by
  by_cases hempty : p.sock.wbuf.items = 0
  · simp only [step, if_pos hempty] at hstep
    cases hstep
  simp only [step, if_neg hempty] at hstep
  rcases Sock.writeCbPoint_cases h.wf (some cb) data with
    ⟨hroom, hrun⟩ | ⟨e, hrun, -⟩
  · simp only [hrun] at hstep
    cases hstep
    refine ⟨h.wf.pointed hroom _ _, ?_, h.prepared, h.unfilled⟩
    have hquiet : accepted (p.sock.pointed (some cb) data).trace =
        accepted p.sock.trace := by
      simp only [Sock.pointed]
      split <;> simp [accepted]
    have hstream := h.stream
    simp only [Queues.stream, Sock.view] at hstream ⊢
    rw [hquiet]
    exact hstream
  · simp only [hrun] at hstep
    cases hstep
    exact h

/-- **Every call keeps the invariant.** -/
theorem Streams.step {p p' : Writer W R C} (h : p.Streams) {c : TxCall W}
    (hstep : p.step c = some p') : p'.Streams := by
  cases c with
  | write data => exact step_write h hstep
  | writePrepare len => exact step_writePrepare h hstep
  | fill data => exact step_fill h hstep
  | writeCommit len => exact step_writeCommit h hstep
  | writeCbPoint cb data => exact step_writeCbPoint h hstep
  | tryTx wout =>
      rcases Sock.tryTx_cases h.wf wout with
        ⟨s, hrun, hran⟩ | ⟨e, s, hrun, -⟩
      · simp only [Writer.step, hrun] at hstep
        cases hstep
        exact h.of_tx hran
      · simp only [Writer.step, hrun] at hstep
        cases hstep
  | runIo check wout =>
      rcases Sock.runOut_cases h.wf check wout with
        ⟨s, hrun, hran⟩ | ⟨e, s, hrun, -⟩
      · simp only [Writer.step, Sock.runIo_out, hrun] at hstep
        cases hstep
        exact h.of_tx hran
      · simp only [Writer.step, Sock.runIo_out, hrun] at hstep
        cases hstep

/-- A property that every call keeps holds after every run. -/
theorem run_invariant {P : Writer W R C → Prop}
    (hstep : ∀ {p p' : Writer W R C} {c : TxCall W}, P p →
      p.step c = some p' → P p')
    (calls : List (TxCall W)) : ∀ {p p' : Writer W R C}, P p →
    run calls p = some p' → P p' := by
  induction calls with
  | nil =>
      intro p p' h hrun
      cases hrun
      exact h
  | cons c cs ih =>
      intro p p' h hrun
      obtain ⟨t, hc, hrest⟩ := Option.bind_eq_some_iff.mp hrun
      exact ih (hstep h hc) hrest

/-! ## The main result -/

/-- **Nothing is lost, duplicated or reordered.**  After every run the bytes
accepted so far, followed by those waiting from head to tail, are the
committed writes in order; and a write that throws leaves the socket as it
was. -/
theorem run_stream (addr : Nat) (rmem wmem : Nat → UInt8) (w : W)
    (calls : List (TxCall W)) (p : Writer W R C)
    (hrun : run calls (init addr rmem wmem w) = some p) :
    accepted p.sock.trace ++ p.sock.wbuf.toList = p.sofar ∧
    ∀ data e s, Sock.write data p.sock = .error e s → s = p.sock := by
  have h : p.Streams := run_invariant (fun h hstep => h.step hstep) calls
    (init_streams addr rmem wmem w) hrun
  refine ⟨h.stream, ?_⟩
  intro data e s hthrow
  rcases Sock.write_cases h.wf data with ⟨-, -, hok⟩ | ⟨e', herr⟩
  · cases hok.symm.trans hthrow
  · cases herr.symm.trans hthrow
    rfl

/-- Six bytes through a ring of four: the second write waits in two segments
while the kernel takes a part of it, and two more are prepared before and
committed after the rest has left. -/
private def aroundTheEnd : List (TxCall Unit) :=
  [.write [1, 2, 3], .runIo .ok [.accepted 2, .error EAGAIN],
    .write [4, 5], .writePrepare 1, .runIo .ok [.accepted 3],
    .fill [6], .writeCommit 1, .tryTx []]

private def aroundTheEndStart {R C : ℕ+} : Writer Unit R C :=
  init 0 (fun _ => 0) (fun _ => 0) ()

theorem run_stream_aroundTheEnd :
    ∃ p, run aroundTheEnd (aroundTheEndStart : Writer Unit 4 4) = some p ∧
      p.sofar = [1, 2, 3, 4, 5, 6] ∧
      accepted p.sock.trace ++ p.sock.wbuf.toList = p.sofar := by
  have hsofar : (run aroundTheEnd (aroundTheEndStart : Writer Unit 4 4)).map
      sofar = some [1, 2, 3, 4, 5, 6] := by decide +kernel
  obtain ⟨p, hp, hp'⟩ := Option.map_eq_some_iff.mp hsofar
  exact ⟨p, hp, hp',
    (run_stream 0 (fun _ => 0) (fun _ => 0) () aroundTheEnd p hp).1⟩

end Writer

end Mutated.Ports
