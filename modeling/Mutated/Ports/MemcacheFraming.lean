import Mutated.Ports.MemcacheLoad
import Mutated.Ports.MemcacheResponses

/-!
# Response framing

A server answers with responses, each a header that counts the bytes of the
body behind it.  The client is **aligned** with them when its `k`-th callback
is given the `k`-th header and asks to skip the `k`-th body.

`Skips.aligned` reduces alignment to one response: every callback that is
given a header asks for the body it counts.  `Memcache` does so for a get,
unless its header is cut by the end of the ring; for a set it never skips
anything, and neither does `MemcacheLoad`.  So the client is aligned as long
as no set is answered with a body.
-/

namespace Mutated.Ports

open Mutated.Verified.Circular
open Mutated.Verified.Exec
open Mutated.Verified.History

/-! ## Responses -/

/-- A well-formed response. -/
structure Response where
  header : List UInt8
  body : List UInt8
  length_header : header.length = MemcHeader.size
  counts : MemcHeader.bodylenAt header = body.length

/-- The responses as the server sends them. -/
def wire (resps : List Response) : List UInt8 :=
  resps.flatMap fun resp => resp.header ++ resp.body

/-- The place of the `k`-th response. -/
def offset (resps : List Response) (k : Nat) : Nat :=
  (wire (resps.take k)).length

theorem wire_append (xs ys : List Response) :
    wire (xs ++ ys) = wire xs ++ wire ys := List.flatMap_append ..

theorem offset_succ {resps : List Response} {k : Nat} {resp : Response}
    (hk : resps[k]? = some resp) :
    offset resps (k + 1) =
      offset resps k + (MemcHeader.size + resp.body.length) := by
  have htake : resps.take (k + 1) = resps.take k ++ [resp] := by
    rw [List.take_add_one, hk]
    rfl
  have hone : wire [resp] = resp.header ++ resp.body := by simp [wire]
  rw [offset, htake, wire_append, List.length_append, hone,
    List.length_append, resp.length_header, offset]

/-- What lies at the place of the `k`-th response. -/
theorem wire_at {resps : List Response} {k : Nat}
    (hlen : offset resps k < (wire resps).length) :
    ∃ resp, resps[k]? = some resp ∧
      ((wire resps).drop (offset resps k)).take MemcHeader.size =
        resp.header := by
  have hsplit : wire resps = wire (resps.take k) ++ wire (resps.drop k) := by
    rw [← wire_append, List.take_append_drop]
  rw [hsplit, offset, List.drop_left' rfl]
  rw [hsplit, List.length_append, offset] at hlen
  cases hdrop : resps.drop k with
  | nil =>
      rw [hdrop] at hlen
      exact absurd hlen (by simp [wire])
  | cons resp rest =>
      refine ⟨resp, ?_, ?_⟩
      · have hhead := congrArg List.head? hdrop
        rwa [List.head?_drop] at hhead
      · have hcons : wire (resp :: rest) =
            resp.header ++ (resp.body ++ wire rest) := by
          simp [wire]
        rw [hcons, List.take_left' resp.length_header]

/-- The `k`-th callback is given the `k`-th header and asks for the `k`-th
body. -/
def Aligned (resps : List Response) (t : List Event) : Prop :=
  ∀ (k : Nat) (e : Event), (delivered t)[k]? = some e →
    ∃ resp segs, resps[k]? = some resp ∧
      e = .rxcb k .hdr segs 0 resp.body.length ∧
      Buffer.joinSegs segs = resp.header

section Framing

variable {C : Nat} {t : List Event} {resps : List Response}

/-- A callback at the place of the `k`-th response is given its header. -/
private theorem header_of_offset
    (hframed : Always (AtFrame MemcHeader.size C) t)
    (hwire : received t <+: wire resps) {k : Nat} {e : Event}
    (he : (delivered t)[k]? = some e)
    (hoffset : frameAt MemcHeader.size (returns t) k = offset resps k) :
    ∃ resp segs ret, resps[k]? = some resp ∧ (returns t)[k]? = some ret ∧
      e = .rxcb k .hdr segs 0 ret ∧ Buffer.joinSegs segs = resp.header := by
  obtain ⟨ret, hret, hlen, heq⟩ := delivered_of_framed t hframed he
  obtain ⟨more, hmore⟩ := hwire
  have hsize : MemcHeader.size = 24 := rfl
  rw [hoffset] at hlen heq
  obtain ⟨resp, hresp, hheader⟩ := wire_at (k := k) (by
    rw [← hmore, List.length_append]
    omega)
  refine ⟨resp, _, ret, hresp, hret, heq, ?_⟩
  rw [joinSegs_segsAt, ← hheader, ← hmore,
    List.drop_append_of_le_length (by omega),
    List.take_append_of_le_length (by rw [List.length_drop]; omega)]

theorem frameAt_succ {H : Nat} {rets : List Nat} {k ret : Nat}
    (hret : rets[k]? = some ret) :
    frameAt H rets (k + 1) = frameAt H rets k + (H + ret) := by
  simp [frameAt, List.take_add_one, hret]

/-- A callback that is given a header asks for the body it counts. -/
def Skips (resps : List Response) (t : List Event) : Prop :=
  ∀ (k ret : Nat) (segs : Segs) (resp : Response),
    (delivered t)[k]? = some (.rxcb k .hdr segs 0 ret) →
    resps[k]? = some resp → Buffer.joinSegs segs = resp.header →
    ret = resp.body.length

theorem Aligned.skips (h : Aligned resps t) : Skips resps t := by
  intro k ret segs resp he hresp hheader
  obtain ⟨resp', segs', hresp', heq, -⟩ := h k _ he
  cases hresp.symm.trans hresp'
  cases heq
  rfl

/-- Frames are where the responses are. -/
theorem Skips.frameAt_eq (h : Skips resps t)
    (hframed : Always (AtFrame MemcHeader.size C) t)
    (hwire : received t <+: wire resps) (k : Nat)
    (hk : k ≤ (delivered t).length) :
    frameAt MemcHeader.size (returns t) k = offset resps k := by
  induction k with
  | zero => rfl
  | succ k ih =>
      have he := List.getElem?_eq_getElem (show k < (delivered t).length
        by omega)
      obtain ⟨resp, segs, ret, hresp, hr, heq, hheader⟩ :=
        header_of_offset hframed hwire he (ih (by omega))
      rw [heq] at he
      rw [frameAt_succ hr, offset_succ hresp, ih (by omega),
        h k ret segs resp he hresp hheader]

/-- **Alignment is a matter of one response**: callbacks that ask for the body
their header counts are given one header after the other. -/
theorem Skips.aligned (h : Skips resps t)
    (hframed : Always (AtFrame MemcHeader.size C) t)
    (hwire : received t <+: wire resps) : Aligned resps t := by
  intro k e he
  have hk := (List.getElem?_eq_some_iff.mp he).1
  obtain ⟨resp, segs, ret, hresp, -, rfl, hheader⟩ :=
    header_of_offset hframed hwire he
      (h.frameAt_eq hframed hwire k (by omega))
  have hlen := h k ret segs resp he hresp hheader
  exact ⟨resp, segs, hresp, by rw [hlen], hheader⟩

end Framing

/-! ## The generator -/

/-- No set among the first `n` requests is answered with a body. -/
def SetsBare (cmds : List MemcCmd) (resps : List Response) (n : Nat) : Prop :=
  ∀ (k : Nat) (resp : Response), k < n → cmds[k]? = some .set →
    resps[k]? = some resp → resp.body = []

/-- The header of the `n`-th response is not cut, unless it answers a set. -/
def Uncut (C : Nat) (cmds : List MemcCmd) (resps : List Response)
    (n : Nat) : Prop :=
  cmds[n]? ≠ some .set → offset resps n % C + MemcHeader.size ≤ C

namespace Memcache

variable {K : Type} {R C : ℕ+} {clk : Nat → Nat} {addr lag : Nat}
  {sent : List (Sent MemcCmd)} {q : Queues (World MemcCmd (State K) R)}
  {resps : List Response}

/-- What a callback that returned asked for. -/
private theorem asked (h : Lockstep clk proto C addr sent lag q) {k : Nat}
    {e : Event} (he : (delivered q.trace)[k]? = some e) :
    ∃ x segs ret, sent[k]? = some x ∧ e = .rxcb k .hdr segs 0 ret ∧
      bodylen x.info segs = .ok ret := by
  have hk := (List.getElem?_eq_some_iff.mp he).1
  have hd := List.getElem?_eq_getElem (show k < q.world.done.length by
    rw [h.reported]
    exact hk)
  obtain ⟨x, e', hx, he', hrecorded⟩ := h.done k _ hd
  cases he.symm.trans he'
  obtain ⟨segs, ret, rfl, -, hrespond⟩ := hrecorded.response
  refine ⟨x, segs, ret, hx, rfl, ?_⟩
  simp only [proto] at hrespond
  cases hbody : bodylen x.info segs with
  | error e =>
      rw [hbody] at hrespond
      cases hrespond
  | ok n =>
      rw [hbody] at hrespond
      simp only [Except.map, Except.ok.injEq, Prod.mk.injEq] at hrespond
      rw [hrespond.2]

/-- **The generator is aligned** exactly as long as no set is answered with a
body. -/
theorem aligned_iff (h : Lockstep clk proto C addr sent lag q)
    (hwire : received q.trace <+: wire resps) :
    Aligned resps q.trace ↔
      SetsBare (sent.map Sent.info) resps q.answered := by
  constructor
  · intro haligned k resp hk hset hresp
    have he := List.getElem?_eq_getElem (show k < (delivered q.trace).length
      from hk)
    obtain ⟨x, segs, ret, hx, heq, hbody⟩ := asked h he
    rw [List.getElem?_map, hx] at hset
    obtain ⟨resp', segs', hresp', heq', -⟩ := haligned k _ he
    cases hresp.symm.trans hresp'
    cases heq.symm.trans heq'
    rw [bodylen, if_pos (Option.some.inj hset)] at hbody
    exact List.eq_nil_of_length_eq_zero (Except.ok.inj hbody).symm
  · intro hbare
    refine Skips.aligned ?_ h.framed.framed hwire
    intro k ret segs resp he hresp hheader
    obtain ⟨x, segs', ret', hx, heq, hbody⟩ := asked h he
    cases heq
    by_cases hop : x.info = .set
    · rw [bodylen, if_pos hop] at hbody
      have hnone := hbare k resp (List.getElem?_eq_some_iff.mp he).1
        (by rw [List.getElem?_map, hx, ← hop]; rfl) hresp
      rw [hnone, ← Except.ok.inj hbody]
      rfl
    · obtain ⟨seg1, _ | seg2⟩ := segs
      · rw [bodylen_one _ hop] at hbody
        rw [← Except.ok.inj hbody, ← resp.counts, ← hheader, Buffer.joinSegs]
        simp
      · rw [bodylen_two _ hop] at hbody
        cases hbody

/-- **Where a copy behind the header comes from**: the next response is not to
a set, and its header is cut. -/
private theorem cut_of_copyPast (h : Lockstep clk proto C addr sent lag q)
    (hcause : Cause C addr q copyPastHeader) :
    ∃ x, sent[q.answered]? = some x ∧ x.info ≠ .set ∧
      C < claimed MemcHeader.size q.trace % C + MemcHeader.size := by
  have hexn : ∃ w, Queues.RxFault C addr q copyPastHeader w := by
    generalize he : copyPastHeader = e at hcause
    cases hcause with
    | buffer hexn => subst he; cases hexn
    | rx hexn => subst he; cases hexn
    | tx hexn => subst he; cases hexn
    | conn hexn => subst he; cases hexn
    | rxFault hfault => exact ⟨_, hfault⟩
    | txFault hfault => exact absurd hfault h.no_tx_fault
  obtain ⟨w, hfault⟩ := hexn
  obtain ⟨op, ops, x, hun, hops, hlen, hx, hentry, hreport⟩ :=
    h.rx_fault hfault
  obtain ⟨n, hclaimed, hle, -, hhead⟩ := h.framed.eaten
  replace hclaimed : claimed MemcHeader.size q.trace =
    n + skipping q.rxCbs := hclaimed
  have hskip : skipping q.rxCbs = 0 := by
    rw [hops, unanswered] at hun
    rw [hops]
    by_cases hzero : op.hdrlen = 0
    · rw [if_pos hzero] at hun
      exact absurd (congrArg List.length hun) (by simp)
    · exact if_neg hzero
  have hread : ∃ t, proto.respond x.info t (segsAt C q.rhead
      (q.rbuf.take MemcHeader.size)) = .error copyPastHeader := by
    generalize he : copyPastHeader = e at hreport
    cases hreport with
    | notSent hle => cases he
    | early hle => cases he
    | unread hrespond =>
        rw [hentry.info] at hrespond
        exact ⟨_, hrespond⟩
    | noCallback hcb => cases he
  obtain ⟨t, hread⟩ := hread
  have hop : x.info ≠ .set := by
    intro hset
    simp only [proto, bodylen, if_pos hset] at hread
    cases hread
  refine ⟨x, hx, hop, ?_⟩
  rw [hclaimed, hskip, Nat.add_zero, ← hhead]
  have htake : (q.rbuf.take MemcHeader.size).length = MemcHeader.size := by
    rw [List.length_take]
    exact Nat.min_eq_left hlen
  by_contra hwhole
  rw [segsAt, htake, if_neg hwhole] at hread
  simp only [proto, bodylen_one _ hop] at hread
  cases hread

/-- The requests that were made so far are the first ones. -/
private theorem cmds_before {sent : List (Sent MemcCmd)}
    {cmds : List MemcCmd} (h : sent.map Sent.info <+: cmds) {k : Nat}
    (hk : k < sent.length) : cmds[k]? = (sent.map Sent.info)[k]? := by
  obtain ⟨more, rfl⟩ := h
  exact List.getElem?_append_left (by rw [List.length_map]; exact hk)

private theorem setsBare_before {sent : List (Sent MemcCmd)}
    {cmds : List MemcCmd} (h : sent.map Sent.info <+: cmds) {n : Nat}
    (hn : n ≤ sent.length) :
    SetsBare (sent.map Sent.info) resps n ↔ SetsBare cmds resps n := by
  have hsame : ∀ k, k < n → cmds[k]? = (sent.map Sent.info)[k]? :=
    fun k hk => cmds_before h (by omega)
  constructor
  · exact fun hbare k resp hk hset =>
      hbare k resp hk (by rw [← hsame k hk]; exact hset)
  · exact fun hbare k resp hk hset =>
      hbare k resp hk (by rw [hsame k hk]; exact hset)

/-- **A run of the generator.**  It is aligned exactly as long as no set is
answered with a body, and then only a header that is cut makes it copy behind
one. -/
theorem run_aligned (cfg : Config) (calls : List (Call K))
    (rmem wmem : Nat → UInt8) (seqid : UInt64) (client : K)
    {r : EStateM.Result Exn (Conn MemcCmd (State K) R C) Unit}
    (hrun : runAll (Call.call cfg clk) calls
      (start addr rmem wmem seqid client) = r)
    (hwire : received (after r).trace <+: wire resps) :
    (Aligned resps (after r).trace ↔ SetsBare (calls.flatMap Call.cmds) resps
      (delivered (after r).trace).length) ∧
    (SetsBare (calls.flatMap Call.cmds) resps
        (delivered (after r).trace).length →
      Uncut C (calls.flatMap Call.cmds) resps
        (delivered (after r).trace).length →
      ∀ s, r ≠ .error copyPastHeader s) := by
  have hstart : Between addr (Lockstep clk proto C addr) []
      (start addr rmem wmem seqid client : Conn MemcCmd (State K) R C) :=
    ⟨⟨Sock.init_wf _ _ _ _, rfl, Lockstep.init rmem wmem _ _ rfl⟩, rfl, rfl,
      fun _ h => absurd h (by simp [Sock.view, start, connect, Sock.init])⟩
  rcases run_kept (lockstep_kept (by decide) addr (reqLen cfg)) hstart
      calls with
    ⟨sent, s', hok, hsent, hs'⟩ |
    ⟨e, s', hthrow, sent, lag, q, hpre, hq, htrace, hcause⟩
  · cases hok.symm.trans hrun
    have hused := hs'.holds.used
    refine ⟨?_, fun _ _ s heq => by cases heq⟩
    rw [after_ok, show s'.trace = s'.view.trace from rfl,
      aligned_iff hs'.holds hwire]
    have hanswered : s'.view.answered = (delivered s'.trace).length := rfl
    exact setsBare_before (hsent ▸ List.prefix_refl _) (by omega)
  · cases hthrow.symm.trans hrun
    have hused := hq.used
    rw [after_error, htrace] at hwire ⊢
    have hiff := aligned_iff hq hwire
    have hanswered : q.answered = (delivered q.trace).length := rfl
    rw [setsBare_before hpre (by omega)] at hiff
    refine ⟨hiff, ?_⟩
    intro hsets huncut s heq
    cases heq
    rcases hcause with hcause | hzero
    · obtain ⟨x, hx, hop, hcut⟩ := cut_of_copyPast hq hcause
      have hlt := (List.getElem?_eq_some_iff.mp hx).1
      have hnext := (hiff.mpr hsets).skips.frameAt_eq hq.framed.framed hwire
        _ (Nat.le_refl _)
      rw [frameAt_length] at hnext
      rw [hnext] at hcut
      refine absurd (huncut ?_) (by omega)
      rw [← hanswered, cmds_before hpre hlt, List.getElem?_map, hx]
      exact fun hset => hop (Option.some.inj hset)
    · exact absurd hzero (by decide)

end Memcache

/-! ## The loader -/

namespace MemcacheLoad

variable {R C : ℕ+} {cfg : Config} {addr loud : Nat} {l : Loader}
  {q : Queues Loader} {resps : List Response}

/-- **The loader is aligned** exactly as long as nothing is answered with a
body. -/
private theorem aligned_iff (h : Loading cfg C addr l loud q)
    (hwire : received q.trace <+: wire resps) :
    Aligned resps q.trace ↔ ∀ (k : Nat) (resp : Response), k < q.answered →
      resps[k]? = some resp → resp.body = [] := by
  have hzero : ∀ {k : Nat} {e : Event}, (delivered q.trace)[k]? = some e →
      ∃ segs, e = .rxcb k .hdr segs 0 0 := by
    intro k e he
    obtain ⟨ret, hret, -, rfl⟩ := delivered_of_framed _ h.framed.framed he
    rw [h.returned ret (List.mem_of_getElem? hret)]
    exact ⟨_, rfl⟩
  constructor
  · intro haligned k resp hk hresp
    have he := List.getElem?_eq_getElem (show k < (delivered q.trace).length
      from hk)
    obtain ⟨segs, heq⟩ := hzero he
    obtain ⟨resp', segs', hresp', heq', -⟩ := haligned k _ he
    cases hresp.symm.trans hresp'
    have hsame := heq.symm.trans heq'
    simp only [Event.rxcb.injEq] at hsame
    exact List.eq_nil_of_length_eq_zero hsame.2.2.2.2.symm
  · intro hbare
    refine Skips.aligned ?_ h.framed.framed hwire
    intro k ret segs resp he hresp hheader
    obtain ⟨segs', heq⟩ := hzero he
    cases heq
    rw [hbare k resp (List.getElem?_eq_some_iff.mp he).1 hresp]
    rfl

/-- What a run of the loader leaves behind. -/
private theorem run_loading (calls : List Call) (rmem wmem : Nat → UInt8) :
    ∃ l loud q, Loading cfg C addr l loud q ∧
      (after (runAll (Call.call cfg) calls
        (start cfg addr rmem wmem : Sock Loader R C))).trace = q.trace := by
  have hstep : ∀ {l : Loader} {loud : Nat} {s : Sock Loader R C} (c : Call),
      Ready cfg addr l loud s →
      (∃ loud' s', c.call cfg s = .ok () s' ∧ Ready cfg addr l loud' s') ∨
      ∃ e s' loud', c.call cfg s = .error e s' ∧
        Stopped addr (Loading cfg C addr l loud') e s' := by
    rintro l loud s (⟨seqid, quiet, stack, wout, rin⟩ |
      ⟨events, check, rin, wout⟩) h
    · rcases sendRequest_kept h seqid quiet stack wout rin with
        ⟨s', hrun, hs'⟩ | ⟨e, s', hrun, loud', hstop⟩
      · exact .inl ⟨_, s', hrun, hs'⟩
      · exact .inr ⟨e, s', loud', hrun, hstop⟩
    · rcases runIo_kept h events check rin wout with
        ⟨s', hrun, hs'⟩ | ⟨e, s', hrun, hstop⟩
      · exact .inl ⟨_, s', hrun, hs'⟩
      · exact .inr ⟨e, s', loud, hrun, hstop⟩
  have hpast : ∀ {cs : List Call} {t : Sock Loader R C},
      runAll (Call.call cfg) cs (start cfg addr rmem wmem) = .ok () t →
      ∃ loud, Ready cfg addr (.init cfg addr) loud t := by
    intro cs t hrun
    refine runAll_invariant (P := fun _ t => ∃ loud,
      Ready cfg addr (.init cfg addr) loud t) ?_ cs []
      ⟨0, .start rmem wmem⟩ hrun
    rintro past c u v ⟨loud, hu⟩ hcall
    rcases hstep c hu with ⟨loud', v', hok, hv⟩ | ⟨e, v', -, hthrow, -⟩
    · cases hok.symm.trans hcall
      exact ⟨loud', hv⟩
    · cases hthrow.symm.trans hcall
  cases hrun : runAll (Call.call cfg) calls
      (start cfg addr rmem wmem : Sock Loader R C) with
  | ok _ t =>
      obtain ⟨loud, ht⟩ := hpast hrun
      exact ⟨_, loud, t.view, ht.holds, rfl⟩
  | error e t =>
      obtain ⟨past, c, rest, u, -, hok, hthrow⟩ := runAll_error calls hrun
      obtain ⟨loud, hu⟩ := hpast hok
      rcases hstep c hu with
        ⟨loud', v, hcall, -⟩ | ⟨e', v, loud', hcall, q, hq, htrace, -⟩
      · cases hcall.symm.trans hthrow
      · cases hcall.symm.trans hthrow
        exact ⟨_, loud', q, hq, htrace⟩

/-- **A run of the loader** is aligned exactly as long as nothing is answered
with a body. -/
theorem run_aligned (cfg : Config) (calls : List Call)
    (rmem wmem : Nat → UInt8)
    {r : EStateM.Result Exn (Sock Loader R C) Unit}
    (hrun : runAll (Call.call cfg) calls (start cfg addr rmem wmem) = r)
    (hwire : received (after r).trace <+: wire resps) :
    Aligned resps (after r).trace ↔ ∀ (k : Nat) (resp : Response),
      k < (delivered (after r).trace).length →
      resps[k]? = some resp → resp.body = [] := by
  subst hrun
  obtain ⟨l, loud, q, hq, htrace⟩ := run_loading (R := R) (C := C) calls rmem
    wmem
  rw [htrace] at hwire ⊢
  exact aligned_iff hq hwire

end MemcacheLoad

/-! ## Both -/

/-- **Response framing.**  The client is aligned with the responses exactly as
long as no set is answered with a body. -/
theorem runs_aligned_iff {R C : ℕ+} (addr : Nat) (rmem wmem : Nat → UInt8)
    (resps : List Response) :
    (∀ {K : Type} (cfg : Memcache.Config) (clk : Nat → Nat)
      (calls : List (Memcache.Call K)) (seqid : UInt64) (client : K)
      (r : EStateM.Result Exn (Conn MemcCmd (Memcache.State K) R C) Unit),
      runAll (Memcache.Call.call cfg clk) calls
        (Memcache.start addr rmem wmem seqid client) = r →
      received (after r).trace <+: wire resps →
      (Aligned resps (after r).trace ↔
        SetsBare (calls.flatMap Memcache.Call.cmds) resps
          (delivered (after r).trace).length) ∧
      (SetsBare (calls.flatMap Memcache.Call.cmds) resps
          (delivered (after r).trace).length →
        Uncut C (calls.flatMap Memcache.Call.cmds) resps
          (delivered (after r).trace).length →
        ∀ s, r ≠ .error Memcache.copyPastHeader s)) ∧
    ∀ (cfg : MemcacheLoad.Config) (calls : List MemcacheLoad.Call)
      (r : EStateM.Result Exn (Sock MemcacheLoad.Loader R C) Unit),
      runAll (MemcacheLoad.Call.call cfg) calls
        (MemcacheLoad.start cfg addr rmem wmem) = r →
      received (after r).trace <+: wire resps →
      (Aligned resps (after r).trace ↔ ∀ (k : Nat) (resp : Response),
        k < (delivered (after r).trace).length →
        resps[k]? = some resp → resp.body = []) :=
  ⟨fun cfg _ calls seqid client _ hrun hwire =>
      Memcache.run_aligned cfg calls rmem wmem seqid client hrun hwire,
    fun cfg calls _ hrun hwire =>
      MemcacheLoad.run_aligned cfg calls rmem wmem hrun hwire⟩

/-- A set and a get, and the event that finishes the connect and sends
them. -/
private def setThenGet : List (Memcache.Call Unit) :=
  [.send true true (fun _ _ _ _ _ k => k) (fun _ _ => 0) [] [],
    .send false true (fun _ _ _ _ _ k => k) (fun _ _ => 0) [] [],
    .runIo EPOLLOUT .ok [] [.accepted 59]]

/-- An error response with a text of five bytes, as a server out of memory
sends it. -/
private def outOfMemory : Response where
  header := [0x81, 1, 0, 0, 0, 0, 0, 0x82, 0, 0, 0, 5] ++ List.replicate 12 0
  body := [69, 114, 114, 111, 114]
  length_header := by decide
  counts := by decide

/-- A response without a body. -/
private def bare : Response where
  header := [0x81, 0, 0, 0, 0, 0, 0, 0, 0, 0, 0, 0] ++ List.replicate 12 0
  body := []
  length_header := by decide
  counts := by decide

/-- The set and the get, and both responses in one event. -/
private def answeredBy (resps : List Response) : List (Memcache.Call Unit) :=
  match wire resps with
  | [] => setThenGet
  | b :: bs => setThenGet ++ [.runIo EPOLLIN .ok [.data b bs] []]

/-- The run of these calls with keys and values of one byte. -/
private def answeredRun (resps : List Response) : EStateM.Result Exn
    (Conn MemcCmd (Memcache.State Unit) maxOutstandingReqs charbufSize) Unit :=
  runAll (Memcache.Call.call ⟨1, 1, 1⟩ id) (answeredBy resps)
    (Memcache.start 0 (fun _ => 0) (fun _ => 0) 0 ())

/-- A loud set of the loader, and its response. -/
private def answeredSet : List MemcacheLoad.Call :=
  [.send 1 false (fun _ _ => 0) [] [], .runIo EPOLLOUT .ok [] [.accepted 34],
    .runIo EPOLLIN .ok [.data 0x81 (bare.header.drop 1)] []]

private def answeredSetRun : EStateM.Result Exn
    (Sock MemcacheLoad.Loader maxOutstandingReqs charbufSize) Unit :=
  runAll (MemcacheLoad.Call.call ⟨1, 1, 1, 1, 1, 1⟩) answeredSet
    (MemcacheLoad.start ⟨1, 1, 1, 1, 1, 1⟩ 0 (fun _ => 0) (fun _ => 0))

theorem runs_aligned_iff_bare :
    (Aligned [bare, bare] (after (answeredRun [bare, bare])).trace ↔
      SetsBare ((answeredBy [bare, bare]).flatMap Memcache.Call.cmds)
        [bare, bare]
        (delivered (after (answeredRun [bare, bare])).trace).length) ∧
    (Aligned [bare] (after answeredSetRun).trace ↔
      ∀ (k : Nat) (resp : Response),
        k < (delivered (after answeredSetRun).trace).length →
        [bare][k]? = some resp → resp.body = []) :=
  ⟨((runs_aligned_iff 0 _ _ [bare, bare]).1 ⟨1, 1, 1⟩ id
      (answeredBy [bare, bare]) 0 () _ rfl ⟨[], by decide +kernel⟩).1,
    (runs_aligned_iff 0 _ _ [bare]).2 ⟨1, 1, 1, 1, 1, 1⟩ answeredSet _ rfl
      ⟨[], by decide +kernel⟩⟩

/-- The header that the second callback is given starts with the text of the
first response. -/
theorem not_aligned_outOfMemory :
    received (after (answeredRun [outOfMemory, bare])).trace <+:
      wire [outOfMemory, bare] ∧
    ¬ Aligned [outOfMemory, bare]
      (after (answeredRun [outOfMemory, bare])).trace := by
  refine ⟨⟨[], by decide +kernel⟩, fun haligned => ?_⟩
  have hsecond : ∃ segs ret,
      (delivered (after (answeredRun [outOfMemory, bare])).trace)[1]? =
        some (.rxcb 1 .hdr segs 0 ret) ∧
      (Buffer.joinSegs segs).take 5 = outOfMemory.body :=
    ⟨(outOfMemory.body ++ bare.header.take 19, none), 0,
      by decide +kernel, by decide⟩
  obtain ⟨segs, ret, hcall, htext⟩ := hsecond
  obtain ⟨resp, segs', hresp, heq, hheader⟩ := haligned 1 _ hcall
  cases hresp
  cases heq
  rw [hheader] at htext
  exact absurd htext (by decide)

end Mutated.Ports
