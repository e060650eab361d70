import Mutated.Ports.Connections

/-!
# The references to a generator

`Counting` is the invariant of a connection: every sample releases one of the
references that were taken, and the stream is as long as the requests.  From it
follows what the calls of a generator do: `Single` is known of a generator for
one request, `Pooled` of one of the pool.
-/

namespace Mutated.Ports

open Mutated.Verified.Exec
open Lifetime (Cell)

namespace Connections

variable {R C : ℕ+}

/-! ## Counting references along the samples -/

section Counting

variable {X K : Type} {clk : Nat → Nat} {P : Proto X} {addr : Nat}
  {len : X → Nat} {ref : K → Except Exn Cell} {n : Nat}
  {sent : List (Sent X)} {lag : Nat} {q : Queues (World X K R)}

/-- The callback releases one reference. -/
def Releases (ref : K → Except Exn Cell) (cb : RequestCB K) : Prop :=
  ∀ queueUs serviceUs waitUs bytes measure k,
    ref (cb queueUs serviceUs waitUs bytes measure k) =
      ref k >>= Cell.put .callback

/-- Of `n` references one was released with each sample, as long as one is
left. -/
def Counts (ref : K → Except Exn Cell) (n : Nat) (past : List Sample)
    (k : K) : Prop :=
  past.length < n → ref k = .ok ⟨(n - past.length : Nat), []⟩

/-- Releasing a reference that is not the last one. -/
theorem put_of_two_le {k : Nat} (hk : 2 ≤ k) (place : Lifetime.Place) :
    Cell.put place ⟨k, []⟩ = .ok ⟨(k - 1 : Nat), []⟩ := by
  have hcast : (k : Int) - 1 = (k - 1 : Nat) := by omega
  simp only [Cell.put, ne_eq, not_true_eq_false, if_false]
  rw [if_neg (by omega), if_neg (by omega), hcast]

theorem counts_tells (ref : K → Except Exn Cell) (n : Nat) :
    Tells (Releases ref) (Counts ref n) := by
  intro cb hcb past d k hk hlast
  rw [List.length_append, List.length_singleton] at hlast ⊢
  rw [Sample.tell, hcb, hk (by omega)]
  refine (put_of_two_le (by omega) _).trans ?_
  rw [Nat.sub_sub]

/-- **The invariant of a connection**: `n` references were taken, and the
bytes sent and waiting are those of the requests. -/
def Counting (clk : Nat → Nat) (P : Proto X) (C : ℕ+) (addr : Nat)
    (len : X → Nat) (ref : K → Except Exn Cell) (n : Nat)
    (sent : List (Sent X)) (lag : Nat) (q : Queues (World X K R)) : Prop :=
  Reporting clk P C addr (Releases ref) (Counts ref n) sent lag q ∧
    q.stream.length = (sent.map fun x => len x.info).sum

/-- The length of the stream changes only with a request. -/
private theorem length_carried (clk : Nat → Nat) (P : Proto X) (addr : Nat)
    (len : X → Nat) {I : List (Sent X) → Nat → Queues (World X K R) → Prop}
    {A : Queues (World X K R) → RequestCB K → Prop}
    (hI : Carried clk P C addr len A I) :
    Carried clk P C addr len A (fun sent lag q => I sent lag q ∧
      q.stream.length = (sent.map fun x => len x.info).sum) where
  wf := fun h => hI.wf h.1
  rx := by
    intro sent lag q q' hcredit h hstep
    refine ⟨hI.rx hcredit h.1 hstep, ?_⟩
    rw [← h.2]
    cases hstep with
    | recvd b bs hfit => simp [Queues.stream, accepted]
    | skip op ops n hops hcb hlen hneed => rfl
    | fire op ops cb r w hops hcb hpos hneed hcall =>
        simp [Queues.stream, Queues.eat, accepted]
    | finish op ops hops hneed => rfl
  tx := fun h hstep =>
    ⟨hI.tx h.1 hstep, (congrArg _ (TxStep.stream_eq hstep).1).trans h.2⟩
  submit := by
    intro sent q info measure cb bytes hcredit h hA hspace hroom hlen
    refine ⟨hI.submit measure cb hcredit h.1 hA hspace hroom hlen, ?_⟩
    have hstream : (q.submitted clk P info measure cb bytes
        sent.length).stream = q.stream ++ bytes := by
      have hquiet : ∀ evs : List Event, accepted evs = [] →
          accepted (q.trace ++ evs) = accepted q.trace := by
        intro evs hevs
        rw [accepted_append, hevs, List.append_nil]
      simp only [Queues.stream, Queues.submitted]
      rw [List.append_assoc q.trace, hquiet _ (by split <;> rfl),
        List.append_assoc]
    rw [hstream, List.length_append, h.2, hlen]
    simp
  await := fun h => ⟨hI.await h.1, h.2⟩

theorem counting_carried (clk : Nat → Nat) (hsize : 0 < P.size) (addr : Nat)
    (len : X → Nat)
    (ref : K → Except Exn Cell) (n : Nat) :
    Carried (R := R) clk P C addr len (fun _ cb => Releases ref cb)
      (Counting clk P C addr len ref n) :=
  length_carried clk P addr len
    (reporting_carried hsize addr len (counts_tells ref n))

/-- The client's data change to hold another number of references. -/
theorem Counting.client {n' : Nat} (h : Counting clk P C addr len ref n sent
    lag q) {k : K} (hk : Counts ref n' q.world.done k) :
    Counting clk P C addr len ref n' sent lag
      { q with world := { q.world with client := k } } :=
  ⟨⟨h.1.toLockstep.client k, h.1.waits, hk⟩, h.2⟩

/-- A connection between two calls: `n` references were taken and `m` requests
made. -/
structure Sound (clk : Nat → Nat) (P : Proto X) (len : X → Nat)
    (ref : K → Except Exn Cell) (n m : Nat) (s : Conn X K R C) : Prop where
  between : Between s.addr (Counting clk P C s.addr len ref n)
    s.world.sent s
  made : s.world.sent.length = m

namespace Sound

variable {m : Nat} {s : Conn X K R C}

theorem of_between (h : Between addr (Counting clk P C addr len ref n) sent
    s) : Sound clk P len ref n sent.length s := by
  have hmade : s.world.sent = sent := h.holds.1.made
  obtain rfl := h.addr
  refine ⟨?_, congrArg List.length hmade⟩
  rw [hmade]
  exact h

theorem answered_le (h : Sound clk P len ref n m s) :
    (delivered s.trace).length ≤ m := by
  have hused := h.between.holds.1.used
  rw [h.made] at hused
  exact Nat.le_of_add_left_le (Nat.le_of_eq hused)

/-- The references that are left. -/
theorem refs (h : Sound clk P len ref n m s)
    (hleft : (delivered s.trace).length < n) :
    ref s.world.client =
      .ok ⟨(n - (delivered s.trace).length : Nat), []⟩ := by
  have hreported : s.world.done.length = (delivered s.trace).length :=
    h.between.holds.1.reported
  have htold := h.between.holds.1.told
  rw [← hreported] at hleft ⊢
  exact htold hleft

/-- References are taken or released. -/
theorem client (h : Sound clk P len ref n m s) {n' : Nat} {k : K}
    (hk : (delivered s.trace).length < n' → ref k =
      .ok ⟨(n' - (delivered s.trace).length : Nat), []⟩) :
    Sound clk P len ref n' m
      { s with world := { s.world with client := k } } := by
  have hreported : s.world.done.length = (delivered s.trace).length :=
    h.between.holds.1.reported
  rw [← hreported] at hk
  have hwf := h.between.wf
  exact ⟨⟨⟨⟨hwf.rxCbs, hwf.rbuf, hwf.txCbs, hwf.wbuf⟩, rfl,
    h.between.holds.client hk⟩, h.between.nread, h.between.npoint,
    h.between.live⟩, h.made⟩

/-- **An event** makes no request. -/
theorem runIo (hsize : 0 < P.size) (h : Sound clk P len ref n m s)
    {events : UInt32} {check : ConnCheck} {rin : List ReadRes}
    {wout : List WriteRes} {t : Conn X K R C}
    (hrun : Sock.runIo events check rin wout s = .ok () t) :
    Sound clk P len ref n m t := by
  rcases runIo_kept (counting_carried clk hsize s.addr len ref n) h.between
      events check rin wout with ⟨u, hok, hu⟩ | ⟨e, u, hthrow, -⟩
  · cases hok.symm.trans hrun
    have hsound := of_between hu
    rwa [h.made] at hsound
  · cases hthrow.symm.trans hrun

/-- **Nothing waits** once the only request was answered. -/
theorem wbuf_eq_nil (h : Sound clk P len ref n 1 s) {reply : Bool}
    (hserved : ServedBy reply len s)
    (hanswered : (delivered s.trace).length = 1) : s.wbuf.toList = [] := by
  have hsum := h.between.holds.2
  have haccepted := hserved.2
  rw [hanswered, List.take_of_length_le (Nat.le_of_eq h.made)] at haccepted
  replace hsum : (accepted s.trace ++ s.wbuf.toList).length = _ := hsum
  rw [List.length_append] at hsum
  exact List.eq_nil_of_length_eq_zero (by omega)

end Sound

end Counting

/-! ## Calls of a generator -/

namespace Gen

variable {n m : Nat} {g g' : Gen R C}

/-- The invariant of a generator between two calls. -/
def Sound (n m : Nat) : Gen R C → Prop
  | .synthetic _ clk s => Connections.Sound clk Synthetic.proto
      (fun _ => Synthetic.reqPktSize) Synthetic.State.client n m s
  | .memcache cfg clk s => Connections.Sound clk Memcache.proto
      (Memcache.reqLen cfg) Memcache.State.client n m s

/-- The number of responses that were handled. -/
def answered : Gen R C → Nat
  | .synthetic _ _ s => (delivered s.trace).length
  | .memcache _ _ s => (delivered s.trace).length

/-- The generator awaits replies. -/
def Replies : Gen R C → Prop
  | .synthetic cfg _ _ => cfg.sendOnly = false
  | .memcache _ _ _ => True

theorem Sound.answered_le (h : g.Sound n m) : g.answered ≤ m := by
  cases g with
  | synthetic cfg clk s => exact Connections.Sound.answered_le h
  | memcache cfg clk s => exact Connections.Sound.answered_le h

theorem Sound.refs (h : g.Sound n m) (hleft : g.answered < n) :
    g.refs = .ok ⟨(n - g.answered : Nat), []⟩ := by
  cases g with
  | synthetic cfg clk s => exact Connections.Sound.refs h hleft
  | memcache cfg clk s => exact Connections.Sound.refs h hleft

/-- Only the references change. -/
theorem Sound.setRefs (h : g.Sound n m) {n' : Nat} {c : Cell}
    (hc : g.answered < n' → c = ⟨(n' - g.answered : Nat), []⟩) :
    (g.setRefs c).Sound n' m := by
  cases g with
  | synthetic cfg clk s =>
      exact Connections.Sound.client h fun hleft => congrArg _ (hc hleft)
  | memcache cfg clk s =>
      exact Connections.Sound.client h fun hleft => congrArg _ (hc hleft)

/-- What taking or releasing references leaves alone. -/
theorem setRefs_quiet (c : Cell) (g : Gen R C) :
    (g.setRefs c).answered = g.answered ∧ (g.setRefs c).wbuf = g.wbuf ∧
      ((g.setRefs c).Replies ↔ g.Replies) ∧
      ((g.setRefs c).Served ↔ g.Served) ∧ (g.setRefs c).refs = .ok c := by
  cases g with
  | synthetic cfg clk s => exact ⟨rfl, rfl, .rfl, .rfl, rfl⟩
  | memcache cfg clk s => exact ⟨rfl, rfl, .rfl, .rfl, rfl⟩

/-- **A reference is taken.** -/
theorem Sound.get (h : g.Sound n m) (hleft : g.answered < n)
    (hrun : g.onRefs Cell.get = .ok g') :
    g'.Sound (n + 1) m ∧ g'.answered = g.answered ∧
      (g'.Replies ↔ g.Replies) := by
  have hget : Cell.get ⟨(n - g.answered : Nat), []⟩ =
      .ok ⟨(n - g.answered : Nat) + 1, []⟩ := rfl
  rw [onRefs, h.refs hleft] at hrun
  cases hrun.symm.trans (congrArg (· >>= fun c => pure (g.setRefs c)) hget)
  obtain ⟨hanswered, -, hreplies, -⟩ := g.setRefs_quiet
    ⟨((n - g.answered : Nat) : Int) + 1, []⟩
  refine ⟨h.setRefs fun _ => ?_, hanswered, hreplies⟩
  rw [Nat.succ_sub (Nat.le_of_lt hleft)]
  rfl

/-- **A reference is released** that is not the last one. -/
theorem Sound.put (h : g.Sound (n + 1) m) (hleft : g.answered < n)
    (hrun : g.onRefs (Cell.put .frame) = .ok g') :
    g'.Sound n m ∧ g'.answered = g.answered ∧ (g'.Replies ↔ g.Replies) := by
  have hput := put_of_two_le (k := n + 1 - g.answered) (by omega) .frame
  rw [onRefs, h.refs (Nat.lt_succ_of_lt hleft)] at hrun
  cases hrun.symm.trans (congrArg (· >>= fun c => pure (g.setRefs c)) hput)
  obtain ⟨hanswered, -, hreplies, -⟩ := g.setRefs_quiet
    ⟨(n + 1 - g.answered - 1 : Nat), []⟩
  refine ⟨h.setRefs fun _ => ?_, hanswered, hreplies⟩
  rw [Nat.sub_right_comm]
  rfl

/-- **The last reference is released** when the only request was answered, and
nothing waits then. -/
theorem Sound.put_last (h : g.Sound 2 1) (hserved : g'.Served)
    (hrun : g.onRefs (Cell.put .frame) = .ok g')
    (hanswered : g.answered = 1) : g'.Deleted ∧ g'.wbuf = [] := by
  have hput : Cell.put .frame ⟨(2 - 1 : Nat), []⟩ =
      .ok ⟨0, [.frame]⟩ := rfl
  have hrefs := h.refs (by omega)
  rw [hanswered] at hrefs
  rw [onRefs, hrefs] at hrun
  cases hrun.symm.trans (congrArg (· >>= fun c => pure (g.setRefs c)) hput)
  obtain ⟨-, hwbuf, -, hquiet, hset⟩ := g.setRefs_quiet ⟨0, [.frame]⟩
  refine ⟨⟨_, hset, List.cons_ne_nil _ _⟩, hwbuf.trans ?_⟩
  cases g with
  | synthetic cfg clk s =>
      exact Connections.Sound.wbuf_eq_nil h (hquiet.mp hserved) hanswered
  | memcache cfg clk s =>
      exact Connections.Sound.wbuf_eq_nil h (hquiet.mp hserved) hanswered

/-- A new generator has one reference. -/
theorem Sound.new (cfg : Config) (mem : Memory) :
    (Gen.new cfg mem : Gen R C).Sound 1 0 := by
  cases hprotocol : cfg.protocol with
  | synthetic =>
      rw [Gen.new, hprotocol]
      exact ⟨⟨⟨Sock.init_wf _ _ _ _, rfl, .init _ _ _ _ fun _ => rfl, rfl⟩,
        rfl, rfl, nofun⟩, rfl⟩
  | memcache =>
      rw [Gen.new, hprotocol]
      exact ⟨⟨⟨Sock.init_wf _ _ _ _, rfl, .init _ _ _ _ fun _ => rfl, rfl⟩,
        rfl, rfl, nofun⟩, rfl⟩

/-- **`sock_.run_io`** makes no request. -/
theorem Sound.sockRunIo (h : g.Sound n m) {events : UInt32}
    {check : ConnCheck} {rin : List ReadRes} {wout : List WriteRes}
    (hrun : g.sockRunIo events check rin wout = .ok g') :
    g'.Sound n m ∧ (g'.Replies ↔ g.Replies) := by
  cases g with
  | synthetic cfg clk s =>
      rw [Gen.sockRunIo] at hrun
      cases hio : Sock.runIo events check rin wout s with
      | ok _ t =>
          rw [hio] at hrun
          cases hrun
          exact ⟨Connections.Sound.runIo (by decide) h hio, .rfl⟩
      | error e t =>
          rw [hio] at hrun
          cases hrun
  | memcache cfg clk s =>
      rw [Gen.sockRunIo] at hrun
      cases hio : Sock.runIo events check rin wout s with
      | ok _ t =>
          rw [hio] at hrun
          cases hrun
          exact ⟨Connections.Sound.runIo (by decide) h hio, .rfl⟩
      | error e t =>
          rw [hio] at hrun
          cases hrun

/-- **`_send_request`** where a reply is awaited. -/
theorem Sound.send (h : g.Sound n m) (hreplies : g.Replies) {measure : Bool}
    {d : Draw} (hrun : g._sendRequest measure d = .ok g') :
    g'.Sound n (m + 1) ∧ g'.Replies := by
  cases g with
  | synthetic cfg clk s =>
      have hI := counting_carried (R := R) (C := C) clk
        (P := Synthetic.proto) (by decide) s.addr
        (fun _ => Synthetic.reqPktSize)
        (Synthetic.State.client (K := Except Exn Cell)) n
      rcases Synthetic.sendRequest_carried
          hI h.between d.service measure recordSample
          (fun _ _ _ _ _ _ => rfl) (d.stack 0) d.wout d.rin with
        ⟨t, hfinish, ht⟩ | ⟨e, t, hthrow, -⟩
      · rw [Synthetic.finish, show cfg.sendOnly = false from hreplies]
          at hfinish
        rw [Gen._sendRequest, hfinish] at hrun
        cases hrun
        have hsound := Connections.Sound.of_between ht
        rw [List.length_append, h.made] at hsound
        exact ⟨hsound, hreplies⟩
      · rw [Gen._sendRequest, hthrow] at hrun
        cases hrun
  | memcache cfg clk s =>
      have hI := counting_carried (R := R) (C := C) clk
        (P := Memcache.proto) (by decide) s.addr (Memcache.reqLen cfg)
        (Memcache.State.client (K := Except Exn Cell)) n
      have hnumbered : Connections.Sound clk Memcache.proto
          (Memcache.reqLen cfg) Memcache.State.client n m
          (Memcache.numbered s) :=
        Connections.Sound.client h fun hleft => Connections.Sound.refs h hleft
      rcases Memcache.sendRequest_carried
          hI hnumbered.between d.low measure recordSample
          (fun _ _ _ _ _ _ => rfl) d.stack d.wout d.rin with
        ⟨r, t, hok, ht⟩ | ⟨e, t, hthrow, -⟩
      · rw [Gen._sendRequest, hok] at hrun
        cases hrun
        have hsound := Connections.Sound.of_between ht
        rw [List.length_append, hnumbered.made] at hsound
        exact ⟨hsound, trivial⟩
      · rw [Gen._sendRequest, hthrow] at hrun
        cases hrun

/-- The completion of request `m` is faked: it releases a reference, as long
as no response arrived. -/
private theorem fakeResponse_sound {clk : Nat → Nat}
    {s t : Conn UInt64 (Synthetic.State (Except Exn Cell)) R C}
    (h : Connections.Sound clk Synthetic.proto
      (fun _ => Synthetic.reqPktSize) Synthetic.State.client (n + 1) (m + 1) s)
    (hleft : 0 < n) (hnone : delivered t.trace = []) {measure : Bool}
    (hrun : Sock.onWorld (Synthetic.fakeResponse (m % R) measure) s =
      .ok () t) :
    Connections.Sound clk Synthetic.proto
      (fun _ => Synthetic.reqPktSize) Synthetic.State.client n (m + 1) t := by
  have hlast : m < s.world.sent.length := by rw [h.made]; exact m.lt_succ_self
  obtain ⟨cb, hcb, rfl⟩ := Synthetic.fakeResponse_ok hrun
  replace hnone : delivered s.trace = [] := hnone
  have hanswered : s.view.answered ≤ m := by
    show (delivered s.trace).length ≤ m
    rw [hnone]
    exact m.zero_le
  obtain ⟨cb', hcb', hreleases⟩ := h.between.holds.1.waits m _ hanswered
    (List.getElem?_eq_getElem hlast)
  cases hcb.symm.trans hcb'
  refine Connections.Sound.client h fun _ => ?_
  have hrefs := h.refs (by rw [hnone]; exact n.succ_pos)
  rw [hnone] at hrefs ⊢
  refine (hreleases 0 0 0 0 measure s.world.client).trans ?_
  rw [hrefs]
  exact put_of_two_le (Nat.succ_le_succ hleft) _

/-- **`_send_request`** where the completion is faked. -/
theorem Sound.sendOnly (h : g.Sound (n + 1) m) (honly : ¬ g.Replies)
    (hleft : 0 < n) (hserved : g'.Served) {measure : Bool} {d : Draw}
    (hrun : g._sendRequest measure d = .ok g') :
    g'.Sound n (m + 1) ∧ ¬ g'.Replies ∧ g'.answered = 0 := by
  cases g with
  | memcache cfg clk s => exact absurd trivial honly
  | synthetic cfg clk s =>
      have htrue : cfg.sendOnly = true := Bool.not_eq_false _ ▸ honly
      have hI := counting_carried (R := R) (C := C) clk
        (P := Synthetic.proto) (by decide) s.addr
        (fun _ => Synthetic.reqPktSize)
        (Synthetic.State.client (K := Except Exn Cell)) (n + 1)
      have htail : s.world.requests.tail = m % R := by
        rw [← h.made]
        exact h.between.holds.1.tail
      rcases Synthetic.sendRequest_carried
          hI h.between d.service measure recordSample
          (fun _ _ _ _ _ _ => rfl) (d.stack 0) d.wout d.rin with
        ⟨t, hfinish, ht⟩ | ⟨e, t, hthrow, -⟩
      · have hsound := Connections.Sound.of_between ht
        rw [List.length_append, h.made] at hsound
        rw [Synthetic.finish, htrue, htail] at hfinish
        rw [Gen._sendRequest, hfinish] at hrun
        cases hfake : Sock.onWorld (Synthetic.fakeResponse (m % R) measure)
            t with
        | ok _ u =>
            rw [if_pos rfl, bind_of_ok hfake] at hrun
            cases hrun
            have hnone := hserved.1 (by rw [htrue]; rfl)
            exact ⟨fakeResponse_sound hsound hleft hnone hfake, honly,
              congrArg List.length hnone⟩
        | error e u =>
            rw [if_pos rfl, bind_of_error hfake] at hrun
            cases hrun
      · rw [Gen._sendRequest, hthrow] at hrun
        cases hrun

/-- No generator that still has a reference is deleted. -/
theorem Sound.not_deleted (h : g.Sound n m) (hleft : g.answered < n) :
    ¬ g.Deleted := by
  rintro ⟨c, hc, hdeleted⟩
  cases (h.refs hleft).symm.trans hc
  exact hdeleted rfl

/-- Where no reply is wanted, none is handled. -/
theorem answered_eq_zero (h : g.Served) (honly : ¬ g.Replies) :
    g.answered = 0 := by
  cases g with
  | memcache cfg clk s => exact absurd trivial honly
  | synthetic cfg clk s =>
      have htrue : cfg.sendOnly = true := Bool.not_eq_false _ ▸ honly
      exact congrArg List.length (h.1 (by rw [htrue]; rfl))

/-! ### A generator for one request -/

/-- Its reference is that of its request; without it, nothing waits. -/
def Single (g : Gen R C) : Prop :=
  g.Replies ∧ (g.Sound 1 1 ∧ g.answered = 0 ∨ g.Deleted ∧ g.wbuf = [])

/-- The end of `send_request` and of `run_io`. -/
private theorem Single.leave (h : g.Sound 2 1) (hreplies : g.Replies)
    (hserved : g'.Served) (hrun : g.onRefs (Cell.put .frame) = .ok g') :
    g'.Single := by
  rcases Nat.eq_zero_or_pos g.answered with hnone | hsome
  · obtain ⟨hsound, hanswered, hquiet⟩ := h.put (by omega) hrun
    exact ⟨hquiet.mpr hreplies, .inl ⟨hsound, hanswered.trans hnone⟩⟩
  · have hone : g.answered = 1 := Nat.le_antisymm h.answered_le hsome
    refine ⟨?_, .inr (h.put_last hserved hrun hone)⟩
    obtain ⟨c, -, hput⟩ := except_bind_eq_ok.mp hrun
    obtain ⟨c', -, hset⟩ := except_bind_eq_ok.mp hput
    cases hset
    exact (g.setRefs_quiet c').2.2.1.mpr hreplies

/-- **`send_request`** on a new connection. -/
theorem Single.send (h : g.Sound 1 0) (hreplies : g.Replies)
    {measure : Bool} {d : Draw} (hserved : g'.Served)
    (hrun : g.sendRequest measure d = .ok g') : g'.Single := by
  obtain ⟨g₁, hget, hrest⟩ := except_bind_eq_ok.mp hrun
  obtain ⟨g₂, hsend, hput⟩ := except_bind_eq_ok.mp hrest
  have hnone : g.answered = 0 := Nat.eq_zero_of_le_zero h.answered_le
  obtain ⟨h₁, -, hquiet⟩ := h.get (by omega) hget
  obtain ⟨h₂, hreplies₂⟩ := h₁.send (hquiet.mpr hreplies) hsend
  exact .leave h₂ hreplies₂ hserved hput

/-- **`run_io`** on a connection whose request is outstanding. -/
theorem Single.runIo (h : g.Single) (hlive : ¬ g.Deleted)
    {events : UInt32} {check : ConnCheck} {rin : List ReadRes}
    {wout : List WriteRes} (hserved : g'.Served)
    (hrun : g.runIo events check rin wout = .ok g') : g'.Single := by
  obtain ⟨hreplies, ⟨hsound, hnone⟩ | ⟨hdeleted, -⟩⟩ := h
  · obtain ⟨g₁, hget, hrest⟩ := except_bind_eq_ok.mp hrun
    obtain ⟨g₂, hio, hput⟩ := except_bind_eq_ok.mp hrest
    obtain ⟨h₁, -, hquiet₁⟩ := hsound.get (by omega) hget
    obtain ⟨h₂, hquiet₂⟩ := h₁.sockRunIo hio
    exact .leave h₂ (hquiet₂.mpr (hquiet₁.mpr hreplies)) hserved hput
  · exact absurd hdeleted hlive

theorem Single.wbuf_eq_nil (h : g.Single) (hdeleted : g.Deleted) :
    g.wbuf = [] := by
  obtain ⟨-, ⟨hsound, hnone⟩ | ⟨-, hempty⟩⟩ := h
  · exact absurd hdeleted (hsound.not_deleted (by omega))
  · exact hempty

/-! ### A generator of the pool -/

/-- Besides the pool's reference and those of the outstanding requests there
are `k`. -/
def Pooled (k : Nat) (g : Gen R C) : Prop :=
  ∃ m, g.Replies ∧ g.Sound (1 + m + k) m ∨
    ¬ g.Replies ∧ g.Sound (1 + k) m ∧ g.answered = 0

theorem Pooled.get {k : Nat} (h : g.Pooled k)
    (hrun : g.onRefs Cell.get = .ok g') : g'.Pooled (k + 1) := by
  obtain ⟨m, ⟨hreplies, hsound⟩ | ⟨honly, hsound, hnone⟩⟩ := h
  · have hle := hsound.answered_le
    obtain ⟨h', -, hquiet⟩ := hsound.get (by omega) hrun
    exact ⟨m, .inl ⟨hquiet.mpr hreplies, h'⟩⟩
  · obtain ⟨h', hanswered, hquiet⟩ := hsound.get (by omega) hrun
    exact ⟨m, .inr ⟨mt hquiet.mp honly, h', hanswered.trans hnone⟩⟩

theorem Pooled.put {k : Nat} (h : g.Pooled (k + 1))
    (hrun : g.onRefs (Cell.put .frame) = .ok g') : g'.Pooled k := by
  obtain ⟨m, ⟨hreplies, hsound⟩ | ⟨honly, hsound, hnone⟩⟩ := h
  · have hle := hsound.answered_le
    obtain ⟨h', -, hquiet⟩ := hsound.put (n := 1 + m + k) (by omega) hrun
    exact ⟨m, .inl ⟨hquiet.mpr hreplies, h'⟩⟩
  · obtain ⟨h', hanswered, hquiet⟩ :=
      hsound.put (n := 1 + k) (by omega) hrun
    exact ⟨m, .inr ⟨mt hquiet.mp honly, h', hanswered.trans hnone⟩⟩

/-- The server sees the same before the reference is released. -/
private theorem served_of_put (hrun : g.onRefs (Cell.put .frame) = .ok g')
    (hserved : g'.Served) : g.Served := by
  obtain ⟨c, -, hput⟩ := except_bind_eq_ok.mp hrun
  obtain ⟨c', -, hset⟩ := except_bind_eq_ok.mp hput
  cases hset
  exact (g.setRefs_quiet c').2.2.2.1.mp hserved

/-- **`send_request`** takes over the reference of `get_connection`. -/
theorem Pooled.send (h : g.Pooled 1) {measure : Bool} {d : Draw}
    (hserved : g'.Served) (hrun : g.sendRequest measure d = .ok g') :
    g'.Pooled 0 := by
  obtain ⟨g₁, hget, hrest⟩ := except_bind_eq_ok.mp hrun
  obtain ⟨g₂, hsend, hput⟩ := except_bind_eq_ok.mp hrest
  refine Pooled.put ?_ hput
  obtain ⟨m, ⟨hreplies, hsound⟩ | ⟨honly, hsound, hnone⟩⟩ := h.get hget
  · obtain ⟨h', hreplies'⟩ := hsound.send hreplies hsend
    refine ⟨m + 1, .inl ⟨hreplies', ?_⟩⟩
    rwa [show 1 + (m + 1) + (0 + 1) = 1 + m + (1 + 1) by omega]
  · exact ⟨m + 1, .inr
      (have h' := hsound.sendOnly honly (by omega)
        (served_of_put hput hserved) hsend
      ⟨h'.2.1, h'.1, h'.2.2⟩)⟩

/-- **`run_io`** changes no reference of a pooled generator. -/
theorem Pooled.runIo (h : g.Pooled 0) {events : UInt32} {check : ConnCheck}
    {rin : List ReadRes} {wout : List WriteRes} (hserved : g'.Served)
    (hrun : g.runIo events check rin wout = .ok g') : g'.Pooled 0 := by
  obtain ⟨g₁, hget, hrest⟩ := except_bind_eq_ok.mp hrun
  obtain ⟨g₂, hio, hput⟩ := except_bind_eq_ok.mp hrest
  refine Pooled.put ?_ hput
  obtain ⟨m, ⟨hreplies, hsound⟩ | ⟨honly, hsound, hnone⟩⟩ := h.get hget
  · obtain ⟨h', hquiet⟩ := hsound.sockRunIo hio
    exact ⟨m, .inl ⟨hquiet.mpr hreplies, h'⟩⟩
  · obtain ⟨h', hquiet⟩ := hsound.sockRunIo hio
    have honly' := mt hquiet.mp honly
    refine ⟨m, .inr ⟨honly', h', ?_⟩⟩
    exact answered_eq_zero (served_of_put hput hserved) honly'

theorem Pooled.not_deleted (h : g.Pooled 0) : ¬ g.Deleted := by
  obtain ⟨m, ⟨hreplies, hsound⟩ | ⟨honly, hsound, hnone⟩⟩ := h
  · exact hsound.not_deleted (Nat.lt_of_le_of_lt hsound.answered_le (by omega))
  · exact hsound.not_deleted (by omega)

end Gen

end Connections

end Mutated.Ports
