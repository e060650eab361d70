import Mutated.Ports.ConnectionRefs

/-!
# What a deleted generator takes with it

`Owned` is the invariant of the client: its generators are `Single` with a
connection for each request, and `Pooled` otherwise.

## Main results

`sentBeforeDelete_iff`: `wbuf_` of every deleted generator is empty, in all
runs, unless send-only mode is used with a connection per request.
`call_dropped`: in that mode every request is lost.
-/

namespace Mutated.Ports

open Mutated.Verified.Exec
open Lifetime (Cell)

namespace Connections

variable {R C : ℕ+}

/-! ## The steps of the client -/

/-- Send-only mode with a connection for each request. -/
def Config.Drops (cfg : Config) : Prop :=
  cfg.connMode = .perRequest ∧ cfg.protocol = .synthetic ∧
    cfg.sendOnly = true

instance (cfg : Config) : Decidable cfg.Drops :=
  inferInstanceAs (Decidable (_ ∧ _ ∧ _))

theorem Gen.new_replies {cfg : Config} (hmode : cfg.connMode = .perRequest)
    (hcfg : ¬ cfg.Drops) (m : Memory) : (Gen.new cfg m : Gen R C).Replies := by
  cases hprotocol : cfg.protocol with
  | synthetic =>
      rw [Gen.new, hprotocol]
      exact Bool.eq_false_iff.mpr fun honly => hcfg ⟨hmode, hprotocol, honly⟩
  | memcache =>
      rw [Gen.new, hprotocol]
      trivial

/-- **The invariant of the client.** -/
def Owned (cfg : Config) (s : Client R C) : Prop :=
  ∀ g ∈ s.gens, if cfg.connMode = .perRequest then g.Single else g.Pooled 0

namespace Owned

variable {cfg : Config} {s t : Client R C}

private theorem onGen_eq_ok {i : Nat} {f : Gen R C → Except Exn (Gen R C)}
    (h : s.onGen i f = .ok t) : ∃ g g', s.gens[i]? = some g ∧ f g = .ok g' ∧
      t = { s with gens := s.gens.set i g' } := by
  unfold Client.onGen at h
  cases hg : s.gens[i]? with
  | none =>
      rw [hg] at h
      cases h
  | some g =>
      rw [hg] at h
      obtain ⟨g', hf, rfl⟩ := except_map_eq_ok.mp h
      exact ⟨g, g', rfl, hf, rfl⟩

/-- One generator changes. -/
private theorem set (h : Owned cfg s) {i : Nat} {g : Gen R C}
    (hg : if cfg.connMode = .perRequest then g.Single else g.Pooled 0) :
    Owned cfg { s with gens := s.gens.set i g } := by
  intro g' hg'
  rcases List.mem_or_eq_of_mem_set hg' with hold | rfl
  · exact h g' hold
  · exact hg

theorem init (cfg : Config) (ms : List Memory) :
    Owned cfg (.setupConnections cfg ms : Client R C) := by
  have hpooled : ∀ m : Memory, (Gen.new cfg m : Gen R C).Pooled 0 := by
    intro m
    have hsound : (Gen.new cfg m : Gen R C).Sound 1 0 := .new cfg m
    by_cases hreplies : (Gen.new cfg m : Gen R C).Replies
    · exact ⟨0, .inl ⟨hreplies, hsound⟩⟩
    · exact ⟨0, .inr ⟨hreplies, hsound,
        Nat.eq_zero_of_le_zero hsound.answered_le⟩⟩
  intro g hg
  unfold Client.setupConnections at hg
  cases hmode : cfg.connMode with
  | perRequest =>
      rw [hmode] at hg
      cases hg
  | roundRobin =>
      rw [hmode] at hg
      obtain ⟨m, -, rfl⟩ := List.mem_map.mp hg
      rw [if_neg nofun]
      exact hpooled m
  | random =>
      rw [hmode] at hg
      obtain ⟨m, -, rfl⟩ := List.mem_map.mp hg
      rw [if_neg nofun]
      exact hpooled m

/-- **A request on a connection of its own.** -/
theorem send_perRequest (hcfg : ¬ cfg.Drops)
    (hmode : cfg.connMode = .perRequest) (h : Owned cfg s) {draw : Nat}
    {m : Memory} {measure : Bool} {d : Draw}
    (hcall : (Action.sendRequest draw m measure d).call cfg s = .ok t)
    (hserved : ∀ g ∈ t.gens, g.Served) : Owned cfg t := by
  obtain ⟨⟨i, u⟩, hget, hsend⟩ := except_bind_eq_ok.mp hcall
  unfold Client.getConnection at hget
  rw [hmode] at hget
  cases hget
  obtain ⟨g, g', hg, hrun, rfl⟩ := onGen_eq_ok hsend
  have hlt := (List.getElem?_eq_some_iff.mp hg).1
  have hnew : g = Gen.new cfg m := by
    have hlast := hg.symm.trans (List.getElem?_concat_length ..)
    exact Option.some.inj hlast
  have hsingle : g'.Single := by
    rw [hnew] at hrun
    exact .send (.new cfg m) (Gen.new_replies hmode hcfg m)
      (hserved g' (List.mem_set hlt g')) hrun
  have hset : (s.gens ++ [Gen.new cfg m]).set s.gens.length g' =
      s.gens ++ [g'] := by simp
  intro g'' hg''
  rw [if_pos hmode]
  replace hg'' : g'' ∈ (s.gens ++ [Gen.new cfg m]).set s.gens.length g' := hg''
  rw [hset] at hg''
  rcases List.mem_append.mp hg'' with hold | hlast
  · have hgen := h g'' hold
    rwa [if_pos hmode] at hgen
  · rw [List.mem_singleton.mp hlast]
    exact hsingle

/-- **A reference to a connection of the pool.** -/
private theorem pick_eq_ok {i j : Nat} (h : s.pick i = .ok (j, t)) :
    ∃ g g', s.gens[j]? = some g ∧ g.onRefs Cell.get = .ok g' ∧
      t = { s with gens := s.gens.set j g' } := by
  unfold Client.pick at h
  cases hconn : s.conns[i]? with
  | none =>
      rw [hconn] at h
      cases h
  | some k =>
      rw [hconn] at h
      obtain ⟨u, hon, heq⟩ := except_map_eq_ok.mp h
      cases heq
      exact onGen_eq_ok hon

/-- **A request on a connection of the pool.** -/
theorem send_pooled (hmode : cfg.connMode ≠ .perRequest) (h : Owned cfg s)
    {draw : Nat} {m : Memory} {measure : Bool} {d : Draw}
    (hcall : (Action.sendRequest draw m measure d).call cfg s = .ok t)
    (hserved : ∀ g ∈ t.gens, g.Served) : Owned cfg t := by
  obtain ⟨⟨i, u⟩, hget, hsend⟩ := except_bind_eq_ok.mp hcall
  have hpick : ∃ g g' idx, s.gens[i]? = some g ∧
      g.onRefs Cell.get = .ok g' ∧
      u = { s with gens := s.gens.set i g', idx := idx } := by
    unfold Client.getConnection at hget
    cases hcase : cfg.connMode with
    | perRequest => exact absurd hcase hmode
    | roundRobin =>
        rw [hcase] at hget
        obtain ⟨g, g', hg, hrun, hu⟩ := pick_eq_ok hget
        exact ⟨g, g', _, hg, hrun, hu⟩
    | random =>
        rw [hcase] at hget
        obtain ⟨g, g', hg, hrun, hu⟩ := pick_eq_ok hget
        exact ⟨g, g', s.idx, hg, hrun, hu⟩
  obtain ⟨g, g₁, idx, hg, hrun₁, rfl⟩ := hpick
  obtain ⟨g₁', g₂, hg₁, hrun₂, rfl⟩ := onGen_eq_ok hsend
  have hlt := (List.getElem?_eq_some_iff.mp hg).1
  cases (List.getElem?_set_self hlt).symm.trans hg₁
  have hgen := h g (List.mem_of_getElem? hg)
  rw [if_neg hmode] at hgen
  have hmem : g₂ ∈ (s.gens.set i g₁).set i g₂ :=
    List.mem_set (by rwa [List.length_set]) g₂
  have hpooled := (hgen.get hrun₁).send (hserved g₂ hmem) hrun₂
  intro g' hg'
  rw [if_neg hmode]
  replace hg' : g' ∈ (s.gens.set i g₁).set i g₂ := hg'
  rw [List.set_set] at hg'
  rcases List.mem_or_eq_of_mem_set hg' with hold | rfl
  · have hold' := h g' hold
    rwa [if_neg hmode] at hold'
  · exact hpooled

/-- **Step lemma.** -/
theorem step (hcfg : ¬ cfg.Drops) (h : Owned cfg s) (hstep : Step cfg s t) :
    Owned cfg t := by
  obtain ⟨a, hen, hcall, hserved⟩ := hstep
  cases a with
  | sendRequest draw m measure d =>
      by_cases hmode : cfg.connMode = .perRequest
      · exact h.send_perRequest hcfg hmode hcall hserved
      · exact h.send_pooled hmode hcall hserved
  | runIo i events check rin wout =>
      obtain ⟨g, g', hg, hrun, rfl⟩ := onGen_eq_ok hcall
      have hlt := (List.getElem?_eq_some_iff.mp hg).1
      have hserved' : g'.Served := hserved g' (List.mem_set hlt g')
      have hgen := h g (List.mem_of_getElem? hg)
      refine h.set ?_
      by_cases hmode : cfg.connMode = .perRequest
      · rw [if_pos hmode] at hgen ⊢
        exact hgen.runIo (hen g hg) hserved' hrun
      · rw [if_neg hmode] at hgen ⊢
        exact hgen.runIo hserved' hrun

end Owned

/-! ## Requests that are lost -/

/-- The generator of a request in send-only mode, when it has a connection of
its own. -/
private theorem sendRequest_dropped (hroom : Synthetic.reqPktSize ≤ C)
    (requestsAt : Nat) (clk : Nat → Nat) (m : Memory) (measure : Bool)
    (d : Draw) : ∃ g : Gen R C,
      Gen.sendRequest measure d (.synthetic ⟨true, requestsAt⟩ clk
        (Synthetic.start m.addr m.rmem m.wmem (.ok .new))) = .ok g ∧
      g.Deleted ∧ g.wbuf.length = Synthetic.reqPktSize ∧ g.Served := by
  obtain ⟨t, hfinish, hused, htrace, hworld⟩ :=
    Synthetic.sendRequest_unready (R := R) (C := C) clk
      (s := Synthetic.start m.addr m.rmem m.wmem (.ok ⟨2, []⟩))
      (Sock.init_wf _ _ _ _) (Buffer.init_wf _) rfl rfl R.pos hroom R.pos
      R.pos d.service measure recordSample (d.stack 0) d.wout d.rin
  have hcb : (t.world.requests.buf 0).cb =
      some (Synthetic.onClient recordSample) := by
    rw [hworld, Lockstep.submitted_buf (Buffer.init_wf _)]
    rfl
  have hfake := Synthetic.fakeResponse_some hcb measure
  have hsend : Synthetic.sendRequest ⟨true, requestsAt⟩ clk d.service measure
      recordSample (d.stack 0) d.wout d.rin
      (Synthetic.start m.addr m.rmem m.wmem (.ok ⟨2, []⟩)) = .ok
        Synthetic.reqPktSize _ := hfinish.trans ((bind_of_ok hfake).trans rfl)
  have hrefs : t.world.client.client = .ok ⟨2, []⟩ := by
    rw [hworld]
    rfl
  have hone : recordSample 0 0 0 0 measure t.world.client.client =
      .ok ⟨1, []⟩ := by
    rw [hrefs]
    rfl
  refine ⟨.synthetic ⟨true, requestsAt⟩ clk { t with world := { t.world with
    client := { t.world.client with
      client := .ok ⟨0, [.frame]⟩, faked := t.world.client.faked + 1 } } },
    ?_, ⟨_, rfl, List.cons_ne_nil _ _⟩, ?_, fun _ => ?_, ?_⟩
  · show ((Gen.outcome (Synthetic.sendRequest ⟨true, requestsAt⟩ clk d.service
      measure recordSample (d.stack 0) d.wout d.rin
      (Synthetic.start m.addr m.rmem m.wmem (.ok ⟨2, []⟩)))).map
        (Gen.synthetic ⟨true, requestsAt⟩ clk) >>=
          Gen.onRefs (Cell.put .frame)) = _
    rw [hsend]
    show (recordSample 0 0 0 0 measure t.world.client.client >>= fun c =>
      Cell.put .frame c >>= fun c => pure (Gen.setRefs c _)) = _
    rw [hone]
    rfl
  · exact (Buffer.length_toList _).trans (hused.trans (Nat.zero_add _))
  · show delivered t.trace = []
    rw [htrace]
    rfl
  · show (List.map _ (List.take (delivered t.trace).length _)).sum ≤ _
    rw [htrace]
    exact Nat.zero_le _

/-- **Every request is lost** in that mode, whatever happened before. -/
theorem call_dropped {cfg : Config} (hcfg : cfg.Drops)
    (hroom : Synthetic.reqPktSize ≤ C) (s : Client R C) (draw : Nat)
    (m : Memory) (measure : Bool) (d : Draw) : ∃ g : Gen R C,
      (Action.sendRequest draw m measure d).call cfg s =
        .ok { s with gens := s.gens ++ [g] } ∧
      g.Deleted ∧ g.wbuf.length = Synthetic.reqPktSize ∧ g.Served := by
  obtain ⟨hmode, hprotocol, honly⟩ := hcfg
  obtain ⟨g, hrun, hlost⟩ := sendRequest_dropped (R := R) hroom m.requestsAt
    m.clk m measure d
  have hnew : (Gen.new cfg m : Gen R C) =
      .synthetic ⟨true, m.requestsAt⟩ m.clk
        (Synthetic.start m.addr m.rmem m.wmem (.ok .new)) := by
    rw [Gen.new, hprotocol, honly]
  refine ⟨g, ?_, hlost⟩
  have hget : s.getConnection cfg draw m = .ok (s.newConnection cfg m) := by
    rw [Client.getConnection, hmode]
  have hslot : (s.gens ++ [(Gen.new cfg m : Gen R C)])[s.gens.length]? =
      some (Gen.new cfg m) := List.getElem?_concat_length ..
  simp only [Action.call, hget, Client.onGen, Client.newConnection, bind,
    Except.bind, hslot]
  rw [hnew, hrun]
  simp [Except.map]

/-! ## The main result -/

/-- Whatever is deleted was sent. -/
def SentBeforeDelete (s : Client R C) : Prop :=
  ∀ g ∈ s.gens, g.Deleted → g.wbuf = []

private theorem sentBeforeDelete {cfg : Config} (hcfg : ¬ cfg.Drops)
    {s : Client R C} (h : Reachable cfg s) : SentBeforeDelete s := by
  obtain ⟨ms, -, hsteps⟩ := h
  have howned : Owned cfg s := invariant_of_step (P := Owned cfg)
    (fun _ _ hstep hs => hs.step hcfg hstep) hsteps (.init cfg ms)
  intro g hg hdeleted
  have hgen := howned g hg
  by_cases hmode : cfg.connMode = .perRequest
  · rw [if_pos hmode] at hgen
    exact hgen.wbuf_eq_nil hdeleted
  · rw [if_neg hmode] at hgen
    exact absurd hdeleted hgen.not_deleted

/-- A generator at address zero. -/
private def zeroed : Memory := ⟨0, fun _ => 0, fun _ => 0, 0, 0, id⟩

/-- The first request in that mode is lost. -/
private theorem reachable_dropped (cfg : Config) (hcfg : cfg.Drops)
    (hroom : Synthetic.reqPktSize ≤ C) : ∃ s : Client R C, Reachable cfg s ∧
      ∃ g ∈ s.gens, g.Deleted ∧ g.wbuf.length = Synthetic.reqPktSize := by
  obtain ⟨g, hcall, hdeleted, hlen, hserved⟩ := call_dropped hcfg hroom
    (.setupConnections cfg (List.replicate cfg.connCnt zeroed) : Client R C)
    0 zeroed true ⟨0, false, fun _ _ => 0, [], []⟩
  have hempty : (.setupConnections cfg (List.replicate cfg.connCnt zeroed) :
      Client R C) = ⟨[], [], 0⟩ := by
    rw [Client.setupConnections, hcfg.1]
  refine ⟨_, ⟨_, List.length_replicate, .single
    ⟨.sendRequest 0 zeroed true ⟨0, false, fun _ _ => 0, [], []⟩, trivial,
      hcall, ?_⟩⟩, g, List.mem_append_right _ List.mem_cons_self, hdeleted,
    hlen⟩
  intro g' hg'
  rw [hempty] at hg'
  rw [List.mem_singleton.mp hg']
  exact hserved

/-- **No request is thrown away unsent**, in all runs of a client, exactly when
it does not use send-only mode with a connection for each request. -/
theorem sentBeforeDelete_iff (hroom : Synthetic.reqPktSize ≤ C)
    (cfg : Config) :
    (∀ s : Client R C, Reachable cfg s → SentBeforeDelete s) ↔
      ¬ cfg.Drops := by
  constructor
  · intro hall hcfg
    obtain ⟨s, hs, g, hg, hdeleted, hlen⟩ := reachable_dropped (R := R) cfg
      hcfg hroom
    have hempty := hall s hs g hg hdeleted
    rw [hempty] at hlen
    cases hlen
  · exact fun hcfg s hs => sentBeforeDelete hcfg hs

/-- A pool of ten connections that awaits replies. -/
theorem sentBeforeDelete_roundRobin :
    ((∀ s : Client maxOutstandingReqs charbufSize,
      Reachable ⟨.synthetic, .roundRobin, 10, false, ⟨1, 1, 1⟩⟩ s →
        SentBeforeDelete s) ↔
      ¬ Config.Drops ⟨.synthetic, .roundRobin, 10, false, ⟨1, 1, 1⟩⟩) ∧
    ¬ Config.Drops ⟨.synthetic, .roundRobin, 10, false, ⟨1, 1, 1⟩⟩ :=
  ⟨sentBeforeDelete_iff (by decide) _, by decide⟩

/-- In send-only mode with a connection for each request the first request is
deleted with its 144 bytes. -/
theorem not_sentBeforeDelete_perRequest :
    ∃ s : Client maxOutstandingReqs charbufSize,
      Reachable ⟨.synthetic, .perRequest, 10, true, ⟨1, 1, 1⟩⟩ s ∧
      ¬ SentBeforeDelete s := by
  obtain ⟨s, hs, g, hg, hdeleted, hlen⟩ := reachable_dropped
    (R := maxOutstandingReqs) (C := charbufSize)
    ⟨.synthetic, .perRequest, 10, true, ⟨1, 1, 1⟩⟩ ⟨rfl, rfl, rfl⟩ (by decide)
  refine ⟨s, hs, fun hsent => ?_⟩
  rw [hsent g hg hdeleted] at hlen
  cases hlen

end Connections

end Mutated.Ports
