import Mutated.Ports.ProgramConnections

/-!
# A request of the program

`send_request` of the client does what it does in an experiment whose network
does what the generator did.

* `Tracks` relates the program to the counters of an experiment between two
  calls, `Ended` when the program has ended.
* The network is found on the way: it is what the program has noted in
  `serves`, and has to foretell the rest.

## Main results

`sendRequest_simulates` and `sendOne_simulates`.
-/

namespace Mutated.Ports

open Mutated.Verified.Exec
open Mutated.Ports.Load
open Mutated.Ports.Lifetime (Cell)

namespace Program

variable {R C : ℕ+}

/-! ## A call -/

/-- What the program noted is what the network does. -/
def Foretold (net : Nat → Served) (serves : List Served) : Prop :=
  ∀ (i : Nat) (s : Served), serves[i]? = some s → net i = s

theorem foretold_closed (net : Nat → Served) : Closed (Foretold net) := by
  rintro l l' ⟨rest, rfl⟩ h i s hi
  have hlt := (List.getElem?_eq_some_iff.mp hi).1
  exact h i s ((List.getElem?_append_left hlt).trans hi)

section Model

variable (u : Setting) (net : Nat → Served)

/-- **Between two calls** the program and an experiment agree; `k` requests
were handed over and are not counted yet. -/
structure Tracks (k : Nat) (p : Program R C) (a : Core) : Prop where
  sound : p.Sound u (p.client.core.sentCount + k)
  books : Books u net [] p a
  serves : p.serves.length = p.client.core.sentCount + k
  idle : a.sending = false

/-- The program has ended. -/
structure Ended (reason : Reason) (p : Program R C) (a : Core) : Prop where
  reason : u.EndsBy reason
  made : (p.links.flatMap Link.made).Perm (List.range a.begun)
  turns : u.Turns a.begun p
  order : ∀ (g : Nat) (l : Link R C), p.links[g]? = some l →
    InOrder u l.made l.gen.done
  books : ∃ late, Books u net late p a

/-- A generator may be called: it was handed all of its requests, or all but
the last. -/
structure Callable (n g : Nat) (l : Link R C) (asked : List Nat)
    (p : Program R C) : Prop where
  link : p.links[g]? = some l
  sound : l.Sound u (p.pooled g) asked
  others : ∀ (i : Nat) (l' : Link R C), i ≠ g → p.links[i]? = some l' →
    l'.Sound u (p.pooled i) l'.made
  made : (p.links.flatMap Link.made).Perm (List.range n)
  conns : p.conns = u.conns
  born : ∀ g ∈ p.conns, g < p.links.length
  turns : u.Turns n p
  pos : 0 < p.pooled g + l.waits.length

end Model

variable {u : Setting} {net : Nat → Served} {p : Program R C} {a : Core}

/-- **A call of a generator**, and what is known of all generators then. -/
theorem Callable.call_simulates {n g : Nat} {l : Link R C} {asked : List Nat}
    (h : Callable u n g l asked p) (hbooks : Books u net [] p a)
    (hbegun : a.begun = n) {β : Type} {x : EStateM Exn (Gen R C) β}
    (hx : Gen.Speaks u asked l.made x) (f : β → Nat)
    (call : EStateM Exn (Gen R C) Nat) (hcall : call = do
      Gen.onRefs Cell.get
      let b ← x
      Gen.onRefs (Cell.put .frame)
      pure (f b)) (sending : Bool) (took : Nat) {s : Served}
    (hs : s = served u p.client.core.rcvdCount l took (call (p.lent l)))
    {serves : List Served}
    (hserves : serves = if sending then p.serves ++ [s] else p.serves) :
    Agree Reason.stop
      (fun _ p' a' => p'.Sound u n ∧ Books u net [] p' a' ∧
        p'.serves = serves ∧ a'.place = a.place)
      (fun reason p' a' => Ended u net reason p' a' ∧ p'.serves = serves)
      (callGen u sending g took call p)
      (((u.experiment net).serve s >>= fun _ =>
        pure (bytesOf (call (p.lent l)))) a) := by
  obtain ⟨c, hrefs, hright⟩ := h.sound.refs
  have hlent : (p.lent l).shared =
      { l.gen.shared with core := p.client.core, stop := none } :=
    Gen.shared_setShared _ _
  have hdone : (p.lent l).done = l.gen.done := Gen.done_setShared _ _
  obtain ⟨new, hcame⟩ := Gen.framed_came hx f (h.sound.gen.setShared _)
    (congrArg Shared.stop hlent) ((congrArg Shared.refs hlent).trans hrefs)
    hright h.pos (by
      rw [Gen.done_setShared]
      exact Nat.le_add_left _ _)
  rw [← hcall] at hcame
  have hsim := callGen_simulates hbooks h.link hcame sending took hs hserves
  have hplace : Ends (fun _ a' => a'.place = a.place)
      (fun _ a' => a'.place = a.place)
      (((u.experiment net).serve s >>= fun _ =>
        pure (bytesOf (call (p.lent l)))) a) :=
    Triple.of_keeps (keeps_bind (Experiment.serve_keeps s) fun _ =>
      keeps_pure _) a.place a rfl
  have hmade (gen : Gen R C) : ((p.links.set g
      { l with gen := gen }).flatMap Link.made).Perm (List.range n) := by
    obtain ⟨rest, hrest⟩ := flatMap_set Link.made h.link
    exact (hrest _).trans ((flatMap_perm h.link hrest).symm.trans h.made)
  refine (hsim.and_ends hplace).mono ?_ ?_
  · rintro _ p' a' ⟨⟨gen, ⟨hmoved, -, hbooks'⟩, hsound⟩, hplace'⟩
    refine ⟨?_, hbooks', by rw [hmoved]; rfl, hplace'⟩
    rw [hmoved]
    refine ⟨fun i l' hl' => ?_, hmade gen, h.conns, ?_,
      fun hmode => (h.turns hmode).set h.link _ _ _⟩
    · obtain ⟨rfl, rfl⟩ | ⟨hi, hother⟩ := links_moved hl'
      · exact hsound
      · exact h.others i l' hi hother
    · intro i hi
      have hborn := h.born i hi
      rwa [moved, List.length_set]
  · rintro reason p' a' ⟨⟨hreason, late, gen, hmoved, horder, hbooks'⟩, hplace'⟩
    have hbegun' : a'.begun = n := by
      obtain ⟨hcount, hsend⟩ := Prod.ext_iff.mp hplace'
      rw [← hbegun, Core.begun, Core.begun,
        show a'.sentCount = a.sentCount from hcount,
        show a'.sending = a.sending from hsend]
    refine ⟨⟨hreason, ?_, ?_, ?_, late, hbooks'⟩, by rw [hmoved]; rfl⟩
    · rw [hmoved, hbegun']
      exact hmade gen
    · rw [hmoved, hbegun']
      exact fun hmode => (h.turns hmode).set h.link _ _ _
    · rw [hmoved]
      intro i l' hl'
      obtain ⟨rfl, rfl⟩ | ⟨hi, hother⟩ := links_moved hl'
      · exact horder
      · exact (h.others i l' hi hother).gen.order

/-! ## One request -/

/-- The invariant does not speak of the client. -/
theorem Sound.withClient {n : Nat} (h : p.Sound u n) (c : Client) :
    ({ p with client := c } : Program R C).Sound u n :=
  ⟨h.links, h.made, h.conns, h.born,
    fun hmode => (h.turns hmode).congr rfl rfl⟩

theorem Books.withCore (h : Books u net [] p a) {c' a' : Core}
    (hlike : Like c' a') (htally : (tally a').1 = (tally a).1) :
    Books u net [] { p with client := { p.client with core := c' } } a' := by
  obtain ⟨hpending, hsamples⟩ := Prod.ext_iff.mp htally
  refine ⟨hlike, ?_, ?_⟩
  · rw [show a'.pending = a.pending from hpending]
    exact h.pending
  · rw [show a'.results.service.samples = a.results.service.samples from
      hsamples]
    exact h.samples

/-- The counters change, but not the number of requests. -/
theorem Tracks.withCore {k : Nat} (h : Tracks u net k p a) {c' a' : Core}
    (hlike : Like c' a') (hcount : c'.sentCount = p.client.core.sentCount)
    (htally : (tally a').1 = (tally a).1) (hidle : a'.sending = false) :
    Tracks u net k { p with client := { p.client with core := c' } } a' := by
  refine ⟨?_, h.books.withCore hlike htally, ?_, hidle⟩
  · have hsound := h.sound.withClient { p.client with core := c' }
    rwa [← hcount] at hsound
  · rw [hcount]
    exact h.serves

theorem onClient_keeps {α β : Type} {f : Program R C → β}
    (h : ∀ (p : Program R C) c, f { p with client := c } = f p)
    (x : EStateM Stop Client α) : Keeps f (onClient x) := by
  intro p
  rw [onClient, after_onThrow]
  exact keeps_zoom (fun c p => h p c) x p

theorem getConnection_keeps {α : Type} {f : Program R C → α}
    (h : ∀ (p : Program R C) links idx,
      f { p with links := links, idx := idx } = f p) (b : Attempt) :
    Keeps f (getConnection u b) := by
  have hpick (i : Nat) : Keeps f (pick i) := by
    apply keeps_get
    intro p
    cases p.conns[i]? with
    | none => exact keeps_throw _
    | some g =>
        cases hl : p.links[g]? with
        | none => simp only [hl]; exact keeps_throw _
        | some l =>
            simp only [hl]
            cases l.gen.onRefs Cell.get with
            | error e gen => exact keeps_throw _
            | ok _ gen =>
                exact keeps_bind (keeps_modify fun q => h q _ q.idx)
                  fun _ => keeps_pure g
  rw [getConnection]
  cases u.cfg.connMode with
  | perRequest =>
      exact keeps_get fun p => keeps_bind
        (keeps_modify fun q => h q _ q.idx) fun _ => keeps_pure _
  | roundRobin =>
      exact keeps_get fun p => keeps_bind
        (keeps_modify fun q => h q q.links _) fun _ => hpick _
  | random => exact hpick _

theorem callGen_serves {l : Link R C} {g : Nat} (hl : p.links[g]? = some l)
    (took : Nat) (x : EStateM Exn (Gen R C) Nat) :
    (after (callGen u true g took x p)).serves = p.serves ++
      [served u p.client.core.rcvdCount l took (x (p.lent l))] := by
  simp only [callGen, hl]
  rw [came_serves, if_pos rfl]

theorem callGen_grows (sending : Bool) (i took : Nat)
    (x : EStateM Exn (Gen R C) Nat) :
    Grows (fun p : Program R C => p.serves)
      (callGen u sending i took x) := by
  intro p
  rw [callGen]
  cases hl : p.links[i]? with
  | none => exact List.prefix_refl _
  | some l =>
      show p.serves <+: (after (p.came u sending i took l
        (x (p.lent l)))).serves
      rw [came_serves]
      cases sending with
      | false => exact List.prefix_refl _
      | true => exact List.prefix_append _ _

theorem sendRequest_grows :
    Grows (fun p : Program R C => p.serves) (sendRequest u) :=
  .get fun _ =>
    .bind (.of_keeps (onClient_keeps (fun _ _ => rfl) _)) fun _ =>
    .bind (.of_keeps (getConnection_keeps (fun _ _ _ => rfl) _)) fun _ =>
    .bind (.of_keeps (keeps_modify fun _ => rfl)) fun _ =>
    .bind (callGen_grows _ _ _ _) fun _ =>
      .of_keeps (onClient_keeps (fun _ _ => rfl) _)

/-- The start of the measurements. -/
theorem onCore_starting : onCore (runIf
    (p.client.core.sentCount = u.plan.preSamples)
      (modify Core.startMeasurements)) p =
    .ok () { p with client := { p.client with
      core := u.offline.starting p.client.core } } := by
  rw [Experiment.starting, show u.offline.plan = u.plan from rfl]
  by_cases hpre : p.client.core.sentCount = u.plan.preSamples
  · rw [runIf, if_pos hpre, if_pos hpre]
    rfl
  · rw [runIf, if_neg hpre, if_neg hpre]
    rfl

theorem starting_like {c a : Core} (h : Like c a) :
    Like (u.offline.starting c) ((u.experiment net).starting a) := by
  rw [Experiment.starting, Experiment.starting, h.sentCount,
    show u.offline.plan = u.plan from rfl,
    show (u.experiment net).plan = u.plan from rfl]
  by_cases hpre : a.sentCount = u.plan.preSamples
  · rw [if_pos hpre, if_pos hpre]
    exact h.map (f := Core.startMeasurements) fun _ => rfl
  · rw [if_neg hpre, if_neg hpre]
    exact h

/-- The request is with a generator, which may be called. -/
theorem Handed.callable {n g : Nat} {l : Link R C} {asked : List Nat}
    {q : Program R C} (h : Handed u n g l asked p q) (hp : p.Sound u n) :
    Callable u (n + 1) g l asked q := by
  have hpooled : q.pooled = p.pooled := by
    funext i
    rw [pooled, pooled, h.conns]
  refine ⟨h.link, ?_, ?_, ?_, h.conns.trans hp.conns, fun i hi => ?_,
    h.turns, ?_⟩
  · rw [hpooled]
    exact h.sound
  · rw [hpooled]
    exact h.others
  · rw [List.range_succ]
    exact h.made.trans (hp.made.append_right _)
  · rw [h.conns] at hi
    exact Nat.lt_of_lt_of_le (hp.born i hi) h.born
  · have hlength := h.sound.gen.order.length_le
    have hwaits : 0 < l.waits.length := by
      rw [Link.waits, h.handed, List.length_drop, List.length_append,
        List.length_singleton]
      omega
    omega

/-- The experiment has the request, too. -/
theorem Handed.books {n g : Nat} {l : Link R C} {asked : List Nat}
    {q : Program R C} (h : Handed u n g l asked p q)
    (hp : Books u net [] p a) :
    Books u net [] q (a.enter ((u.experiment net).request n)) := by
  refine ⟨?_, ?_, ?_⟩
  · rw [h.client]
    exact hp.like.ghost rfl
  · obtain ⟨asked', hnone, hpending⟩ := hp.pending
    refine ⟨asked', hnone, ?_⟩
    have hmore := hpending.append_right [(u.experiment net).request n]
    refine hmore.trans ?_
    rw [show [(u.experiment net).request n] =
      [n].map (u.experiment net).request from rfl, ← List.map_append,
      List.append_assoc]
    exact (h.waits.symm.append_left asked').map _
  · exact hp.samples.trans h.lines.symm

/-- The call of the generator for the `n`-th request. -/
def sending (u : Setting) (n : Nat) : EStateM Exn (Gen R C) Nat :=
  Gen.sendRequest u (u.offline.measure n) (u.attempts n).draw

/-- What it is for the experiment. -/
def servedBy (u : Setting) (n : Nat) (l : Link R C) (p : Program R C) :
    Served :=
  served u p.client.core.rcvdCount l (u.attempts n).took
    (sending u n (p.lent l))

/-- `send_request` up to the call of the generator. -/
theorem sendRequest_eq {g : Nat} {p₂ : Program R C}
    (hget : getConnection u (u.attempts p.client.core.sentCount)
      { p with client := { p.client with
        core := u.offline.starting p.client.core } } = .ok g p₂) :
    sendRequest u p = (callGen u true g
        (u.attempts p.client.core.sentCount).took
        (sending u p.client.core.sentCount) >>= fun bytes =>
      onCore (runIf (u.offline.measure p.client.core.sentCount)
        (modify (Core.sentBytes (.ofNat bytes)))))
      (p₂.hand g p.client.core.sentCount) :=
  (bind_of_ok rfl).trans ((bind_of_ok onCore_starting).trans
    ((bind_of_ok hget).trans (bind_of_ok rfl)))

/-- The same of the experiment. -/
theorem experiment_sendRequest_eq (e : Experiment) (a : Core) :
    e.sendRequest a = (e.serve (e.net a.sentCount) >>= fun _ =>
      modify Core.leave >>= fun _ => runIf (e.measure a.sentCount)
        (modify (Core.sentBytes (e.net a.sentCount).bytes)))
      ((e.starting a).enter (e.request a.sentCount)) := by
  have hstart : (runIf (a.sentCount = e.plan.preSamples)
      (modify Core.startMeasurements) : EStateM Stop Core Unit) a =
        .ok () (e.starting a) := by
    rw [runIf, Experiment.starting]
    by_cases hpre : a.sentCount = e.plan.preSamples
    · rw [if_pos hpre, if_pos hpre]
      rfl
    · rw [if_neg hpre, if_neg hpre]
      rfl
  exact (bind_of_ok rfl).trans ((bind_of_ok hstart).trans (bind_of_ok rfl))

/-- The bytes of a request are counted. -/
theorem sentBytes_simulates (measure : Bool) (bytes : Nat) {n : Nat}
    {p : Program R C} {a : Core} (hsound : p.Sound u (n + 1))
    (hbooks : Books u net [] p a) (hserves : p.serves.length = n + 1)
    (hcount : a.sentCount = n) :
    Agree Reason.stop (fun _ => Tracks u net 1) (Ended u net)
      (onCore (runIf measure (modify (Core.sentBytes (.ofNat bytes)))) p)
      ((modify Core.leave >>= fun _ => runIf measure
        (modify (Core.sentBytes (.ofNat bytes)))) a) := by
  have hn : p.client.core.sentCount = n :=
    hbooks.like.sentCount.trans hcount
  have htracks : Tracks u net 1 p a.leave :=
    ⟨hn ▸ hsound, hbooks.withCore (hbooks.like.ghost rfl) rfl,
      hn ▸ hserves, rfl⟩
  cases measure with
  | false => exact .ok htracks
  | true => exact .ok (htracks.withCore
      (htracks.books.like.map (f := Core.sentBytes (.ofNat bytes))
        fun _ => rfl) rfl rfl rfl)

/-- **`send_request`** of the client. -/
theorem sendRequest_simulates (hu : u.Valid) :
    Simulates (fun p : Program R C => p.serves) (Foretold net) Reason.stop
      (Tracks u net 0) (sendRequest u) (u.experiment net).sendRequest
      (fun _ => Tracks u net 1) (Ended u net) := by
  refine ⟨sendRequest_grows, fun p a h hlog => ?_⟩
  have hcount : a.sentCount = p.client.core.sentCount :=
    h.books.like.sentCount.symm
  obtain ⟨starts, start, hstarting, -⟩ :=
    Experiment.starting_log (e := u.experiment net) a
  -- the request is handed to a generator
  let core := u.offline.starting p.client.core
  let p₁ : Program R C := { p with client := { p.client with core := core } }
  have hsound : p₁.Sound u p.client.core.sentCount := h.sound.withClient _
  obtain ⟨g, p₂, l, asked, hget, hhanded⟩ :=
    getConnection_ok hu hsound p.client.core.sentCount
  have hlike : Like core ((u.experiment net).starting a) :=
    starting_like h.books.like
  have hbooks := hhanded.books
    (h.books.withCore hlike (by rw [hstarting]; rfl))
  have hbegun : (((u.experiment net).starting a).enter
      ((u.experiment net).request p.client.core.sentCount)).begun =
        p.client.core.sentCount + 1 := by
    rw [hstarting, ← hcount]
    rfl
  -- its call is a call of the network
  have hspeaks := Gen._sendRequest_speaks (R := R) (C := C) (u := u) asked
    p.client.core.sentCount (u.attempts p.client.core.sentCount).draw
  rw [← hhanded.handed] at hspeaks
  generalize hs : servedBy u p.client.core.sentCount l
    (p₂.hand g p.client.core.sentCount) = s
  have hsim := (hhanded.callable hsound).call_simulates hbooks hbegun hspeaks
    id (sending u p.client.core.sentCount) rfl true
      (u.attempts p.client.core.sentCount).took hs.symm rfl
  have hnoted : (after (sendRequest u p)).serves = p.serves ++ [s] := by
    rw [sendRequest_eq hget, ← hs]
    exact (after_bind_of_keeps (f := fun p : Program R C => p.serves)
      (fun _ => onClient_keeps (fun _ _ => rfl) _) _).trans
      ((callGen_serves hhanded.link _ _).trans
        (congrArg (· ++ _) hhanded.serves))
  have hnet : net p.client.core.sentCount = s := hlog _ s (by
    rw [hnoted, ← Nat.add_zero p.client.core.sentCount, ← h.serves]
    exact List.getElem?_concat_length)
  rw [sendRequest_eq hget, experiment_sendRequest_eq, hcount,
    show (u.experiment net).net = net from rfl, hnet]
  have hbytes : s.bytes = .ofNat (bytesOf (sending u p.client.core.sentCount
      ((p₂.hand g p.client.core.sentCount).lent l))) := by
    rw [← hs]
    exact served_bytes _ _ _ _
  rw [hbytes]
  have hassoc := bind_assoc ((u.experiment net).serve s)
    (fun _ => pure (bytesOf (sending u p.client.core.sentCount
      ((p₂.hand g p.client.core.sentCount).lent l))))
    (fun bytes => modify Core.leave >>= fun _ =>
      runIf (u.offline.measure p.client.core.sentCount)
        (modify (Core.sentBytes (.ofNat bytes))))
  simp only [pure_bind] at hassoc
  refine (congrFun hassoc _) ▸ hsim.bind ?_ ?_
  · exact fun _ _ _ _ hend => hend.1
  · rintro bytes p' a' - ⟨hsound', hbooks', hserves, hplace⟩
    refine sentBytes_simulates _ _ hsound' hbooks' ?_ ?_
    · rw [hserves, if_pos rfl, hhanded.serves, List.length_append]
      exact congrArg (· + 1) h.serves
    · refine (congrArg Prod.fst hplace).trans ?_
      rw [hstarting]
      exact hcount

theorem sendOne_simulates (hu : u.Valid) :
    Simulates (fun p : Program R C => p.serves) (Foretold net) Reason.stop
      (Tracks u net 0) (sendOne u) (u.experiment net).sendOne
      (fun _ => Tracks u net 0) (Ended u net) := by
  refine .bind (foretold_closed net) (sendRequest_simulates hu) fun _ =>
    ⟨.of_keeps (onClient_keeps (fun _ _ => rfl) _), fun p a h _ => .ok ?_⟩
  exact ⟨h.sound.withClient _, h.books.withCore
    (h.books.like.map (f := Core.sent) fun _ => rfl) rfl, h.serves, h.idle⟩

end Program

end Mutated.Ports
