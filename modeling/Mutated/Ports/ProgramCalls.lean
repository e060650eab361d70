import Mutated.Ports.ProgramSamples

/-!
# A call of a generator in the program

`send_request` and `run_io` of a generator do to the client what a call of a
connection does in an experiment: the same responses, the same time, and the
same end.  A generator is used only while somebody holds a reference to it, and
the callbacks never release the last one.  So nothing is thrown but what the
source throws, and what stands for two defects of the memcache generator.

## Main results

`callGen_simulates` compares a call with `Experiment.serve`.
-/

namespace Mutated.Ports

open Mutated.Verified.Exec
open Mutated.Ports.Load
open Mutated.Ports.Lifetime (Cell)

namespace Program

variable {R C : ℕ+} {u : Setting}

/-! ## What a generator tells -/

/-- The samples are those of the first of the requests `made`, in their
order. -/
structure InOrder (u : Setting) (made : List Nat) (ds : List Sample) :
    Prop where
  flags : ds.map (·.measure) <+: made.map u.offline.measure
  serials : ds.map (·.serial) = List.range ds.length

theorem InOrder.length_le {made : List Nat} {ds : List Sample}
    (h : InOrder u made ds) : ds.length ≤ made.length := by
  have hlength := h.flags.length_le
  rwa [List.length_map, List.length_map] at hlength

/-- **What a connection throws**: an exception of the source; or what stands
for the undefined behaviour of the memcache generator, when the end of the ring
cuts the header of a response or when there are no records. -/
def Setting.Throws (u : Setting) (e : Exn) : Prop :=
  e.Defined ∨ u.cfg.protocol = .memcache ∧
    (e = Memcache.copyPastHeader ∨
      u.cfg.records = 0 ∧ e = Memcache.divideByZero)

theorem Setting.Throws.memcache {cfg : Memcache.Config}
    (h : u.cfg.protocol = .memcache ∧ cfg.records = u.cfg.records.toNat)
    {e : Exn} (hfails : Memcache.Fails cfg e) : u.Throws e := by
  rcases hfails with hexn | hcopy | ⟨hnone, hdivide⟩
  · exact .inl hexn
  · exact .inr ⟨h.1, .inl hcopy⟩
  · refine .inr ⟨h.1, .inr ⟨UInt64.toNat_inj.mp ?_, hdivide⟩⟩
    rw [← h.2, hnone]
    rfl

/-- A generator that was deleted is never used. -/
theorem Setting.Throws.alive {e : Exn} (h : u.Throws e) :
    e ≠ Cell.useAfterDelete := by
  rintro rfl
  rcases h with hexn | ⟨-, hcopy | ⟨-, hdivide⟩⟩
  · exact hexn _ rfl
  · exact absurd hcopy (by decide)
  · exact absurd hdivide (by decide)

/-- Why the program may end. -/
def Setting.EndsBy (u : Setting) : Reason → Prop
  | .client stop => stop ≠ .connection
  | .connection e => u.Throws e

namespace Gen

@[simp] theorem shared_setShared (g : Gen R C) (k : Shared) :
    (g.setShared k).shared = k := by
  cases g <;> rfl

@[simp] theorem done_setShared (g : Gen R C) (k : Shared) :
    (g.setShared k).done = g.done := by
  cases g <;> rfl

/-- The generator was handed the requests `made`, and tells about them in this
order. -/
def Sound (u : Setting) (made : List Nat) : Gen R C → Prop
  | .synthetic cfg clk s => cfg.sendOnly = false ∧
      Booked clk Synthetic.proto Synthetic.State.client (recordSample u)
        s.world.done s.world.client.client (made.map u.offline.measure) s
  | .memcache cfg clk s =>
      (u.cfg.protocol = .memcache ∧ cfg.records = u.cfg.records.toNat) ∧
      Booked clk Memcache.proto Memcache.State.client (recordSample u)
        s.world.done s.world.client.client (made.map u.offline.measure) s

/-- From `g` to `g'` samples of these requests were told. -/
structure Spoke (u : Setting) (made : List Nat) (g g' : Gen R C) : Prop where
  told : ∃ new, g'.done = g.done ++ new ∧
    g'.shared = tellAll (recordSample u) new g.shared
  order : InOrder u made g'.done

theorem inOrder_of_told {X K V : Type} {part : K → V} {cb : RequestCB V}
    {past : List Sample} {v : V} {made : List Nat} {g : World X K R}
    (h : Recounted part cb past v (made.map u.offline.measure) g) :
    InOrder u made g.done := by
  have hsample (k : Nat) (hk : k < g.done.length) :=
    h.samples k _ (List.getElem?_eq_getElem hk)
  refine ⟨List.prefix_iff_getElem?.mpr fun k hk => ?_,
    List.ext_getElem (by simp) fun k hk _ => ?_⟩
  · rw [List.length_map] at hk
    rw [(hsample k hk).1, List.getElem_map]
  · rw [List.length_map] at hk
    rw [List.getElem_map, List.getElem_range, (hsample k hk).2]

theorem Sound.order {made : List Nat} {g : Gen R C} (h : g.Sound u made) :
    InOrder u made g.done := by
  cases g with
  | synthetic cfg clk s => exact inOrder_of_told h.2.world.toRecounted
  | memcache cfg clk s => exact inOrder_of_told h.2.world.toRecounted

theorem Sound.setShared {made : List Nat} {g : Gen R C} (h : g.Sound u made)
    (k : Shared) : (g.setShared k).Sound u made := by
  cases g with
  | synthetic cfg clk s => exact ⟨h.1, h.2.renew ⟨k, s.world.client.faked⟩⟩
  | memcache cfg clk s => exact ⟨h.1, h.2.renew ⟨s.world.client.seqid, k⟩⟩

/-- A new generator. -/
theorem Sound.new (hreply : u.cfg.protocol = .synthetic →
    u.cfg.sendOnly = false) (m : Connections.Memory) :
    (Gen.new u m : Gen R C).Sound u [] := by
  rw [Gen.new]
  cases hprotocol : u.cfg.protocol with
  | synthetic => exact ⟨hreply hprotocol, .init _ _ _ _ _ _ _ _ _⟩
  | memcache => exact ⟨⟨hprotocol, rfl⟩, .init _ _ _ _ _ _ _ _ _⟩

/-- What a call of a generator does: it tells samples, and afterwards the
requests it was handed are `made'`. -/
def Speaks {β : Type} (u : Setting) (made made' : List Nat)
    (x : EStateM Exn (Gen R C) β) : Prop :=
  ∀ g : Gen R C, g.Sound u made →
    Ends (fun _ g' => g'.Sound u made' ∧ g.Spoke u made' g')
      (fun e g' => g.Spoke u made' g' ∧ u.Throws e) (x g)

/-- A call of a connection in terms of the generator that it belongs to. -/
theorem speaks_of {β X K : Type} {clk : Nat → Nat} {P : Proto X}
    {part : K → Shared} {made made' : List Nat} {F : Exn → Prop}
    (wrap : Conn X K R C → Gen R C)
    (hdone : ∀ s, (wrap s).done = s.world.done)
    (hshared : ∀ s, (wrap s).shared = part s.world.client)
    (hsound : ∀ s, Booked clk P part (recordSample u) s.world.done
      (part s.world.client) (made'.map u.offline.measure) s →
        (wrap s).Sound u made')
    (hthrows : ∀ e, F e → u.Throws e) {x : EStateM Exn (Conn X K R C) β}
    (hx : ∀ past v, Triple
      (Booked clk P part (recordSample u) past v (made.map u.offline.measure))
      x (fun _ => Booked clk P part (recordSample u) past v
        (made'.map u.offline.measure))
      fun e s => Left part (recordSample u) past v
        (made'.map u.offline.measure) F e s.world)
    {s : Conn X K R C} (h : Booked clk P part (recordSample u) s.world.done
      (part s.world.client) (made.map u.offline.measure) s) :
    Ends (fun _ g' => g'.Sound u made' ∧ (wrap s).Spoke u made' g')
      (fun e g' => (wrap s).Spoke u made' g' ∧ u.Throws e)
      (onState wrap (x s)) := by
  have hspoke : ∀ s', Recounted part (recordSample u) s.world.done
      (part s.world.client) (made'.map u.offline.measure) s'.world →
      (wrap s).Spoke u made' (wrap s') := by
    intro s' hs
    refine ⟨?_, ?_⟩
    · rw [hdone, hdone, hshared, hshared]
      exact hs.told
    · rw [hdone]
      exact inOrder_of_told hs
  refine (hx _ _ s h).onState (fun _ s' hs => ?_) fun e s' hs =>
    ⟨hspoke s' hs.toRecounted, hthrows e hs.fails⟩
  exact ⟨hsound s' (hs.renew s'.world.client),
    hspoke s' hs.world.toRecounted⟩

/-- **`_send_request`.** -/
theorem _sendRequest_speaks (made : List Nat) (n : Nat)
    (d : Connections.Draw) :
    Speaks (R := R) (C := C) u made (made ++ [n])
      (_sendRequest u (u.offline.measure n) d) := by
  have hflags : (made ++ [n]).map u.offline.measure =
      made.map u.offline.measure ++ [u.offline.measure n] := by simp
  intro g h
  cases g with
  | synthetic cfg clk s =>
      refine speaks_of (.synthetic cfg clk) (fun _ => rfl) (fun _ => rfl)
        (fun _ hs => ⟨h.1, hs⟩) (fun _ => .inl) (fun past v => ?_) h.2
      rw [hflags]
      exact Synthetic.sendRequest_tells h.1 _ _ _ _ _
  | memcache cfg clk s =>
      refine speaks_of (.memcache cfg clk) (fun _ => rfl) (fun _ => rfl)
        (fun _ hs => ⟨h.1, hs⟩) (fun _ => .memcache h.1) (fun past v => ?_) h.2
      rw [hflags]
      exact Memcache.sendRequest_tells cfg _ _ _ _ _

/-- **`sock_.run_io`.** -/
theorem sockRunIo_speaks (made : List Nat) (events : UInt32)
    (check : ConnCheck) (rin : List ReadRes) (wout : List WriteRes) :
    Speaks (R := R) (C := C) u made made (sockRunIo events check rin wout) := by
  intro g h
  cases g with
  | synthetic cfg clk s =>
      exact speaks_of (.synthetic cfg clk) (fun _ => rfl) (fun _ => rfl)
        (fun _ hs => ⟨h.1, hs⟩) (fun _ hF => .inl (Synthetic.proto_fails hF))
        (fun _ _ => runIo_tells events check rin wout) h.2
  | memcache cfg clk s =>
      exact speaks_of (.memcache cfg clk) (fun _ => rfl) (fun _ => rfl)
        (fun _ hs => ⟨h.1, hs⟩)
        (fun _ hF => .memcache h.1 (Memcache.proto_fails hF))
        (fun _ _ => runIo_tells events check rin wout) h.2

/-! ## Between `get` and `put` -/

theorem onRefs_ok {g : Gen R C} {c c' : Cell} {f : Cell → Except Exn Cell}
    (hrefs : g.shared.refs = .ok c) (hf : f c = .ok c') :
    onRefs f g = .ok () (g.setShared { g.shared with refs := .ok c' }) := by
  have hrun : (g.shared.refs >>= f) = .ok c' := by
    rw [hrefs]
    exact hf
  simp only [onRefs, hrun]

/-- `put` changes nothing but the references. -/
theorem onRefs_after (f : Cell → Except Exn Cell) (g : Gen R C) :
    (after (onRefs f g)).done = g.done ∧
      (after (onRefs f g)).shared.result = g.shared.result ∧
      (after (onRefs f g)).shared.stop = g.shared.stop := by
  rw [onRefs]
  cases g.shared.refs >>= f with
  | ok c =>
      rw [after_ok, shared_setShared, done_setShared]
      exact ⟨rfl, rfl, rfl⟩
  | error e => exact ⟨rfl, rfl, rfl⟩

/-- How a call came out that found the generator as `g`, with `m` references:
it told the samples `new`. -/
structure Came (u : Setting) (made : List Nat) (m : Nat) (new : List Sample)
    (g : Gen R C) (r : EStateM.Result Exn (Gen R C) Nat) : Prop where
  done : (after r).done = g.done ++ new
  order : InOrder u made (after r).done
  result : (after r).shared.result =
    onThrow .client (runAll (respond u) new g.shared.core)
  throws : ∀ e g', r = .error e g' → g'.shared.stop = none → u.Throws e
  sound : returned r = true → (after r).shared.stop = none →
    (after r).Sound u made ∧ ∃ c, (after r).shared.refs = .ok c ∧
      c.Right (m - new.length)

/-- No more is told than was asked. -/
theorem length_le_of_order {made : List Nat} {past new : List Sample}
    (h : InOrder u made (past ++ new)) :
    new.length ≤ (made.drop past.length).length := by
  have hlength := h.length_le
  rw [List.length_append] at hlength
  rw [List.length_drop]
  omega

/-- **A call with its own reference.** -/
theorem framed_came {β : Type} {made made' : List Nat}
    {x : EStateM Exn (Gen R C) β} (hx : Speaks u made made' x) (f : β → Nat)
    {g : Gen R C} (hg : g.Sound u made) (hstop : g.shared.stop = none)
    {c : Cell} {m : Nat} (hrefs : g.shared.refs = .ok c)
    (hright : c.Right m) (hpos : 0 < m)
    (hwaits : (made'.drop g.done.length).length ≤ m) :
    ∃ new, Came u made' m new g ((do
      onRefs Cell.get
      let b ← x
      onRefs (Cell.put .frame)
      pure (f b)) g) := by
  obtain ⟨c₁, hget, hright₁⟩ := hright.get hpos
  have hbegin := onRefs_ok hrefs hget
  rw [bind_of_ok hbegin]
  have hends := hx _ (hg.setShared { g.shared with refs := .ok c₁ })
  generalize hg₁ : g.setShared { g.shared with refs := .ok c₁ } = g₁
    at hends ⊢
  -- the samples, and what the callbacks made of them
  have hspoke : ∀ g', g₁.Spoke u made' g' → ∃ new,
      g'.done = g.done ++ new ∧ new.length ≤ m ∧
        g'.shared.result =
          onThrow .client (runAll (respond u) new g.shared.core) ∧
        (g'.shared.stop = none → ∃ c', g'.shared.refs = .ok c' ∧
          c'.Right (m - new.length + 1)) := by
    rintro g' ⟨⟨new, hdone, hshared⟩, horder⟩
    rw [← hg₁, done_setShared] at hdone
    rw [← hg₁, shared_setShared] at hshared
    rw [hdone] at horder
    have hlength := Nat.le_trans (length_le_of_order horder) hwaits
    have hall := tellAll_responds (u := u) (m := m - new.length)
      (k := { g.shared with refs := .ok c₁ }) new hstop rfl
      (by rwa [Nat.sub_add_cancel hlength])
    rw [← hshared] at hall
    exact ⟨new, hdone, hlength, hall⟩
  cases hrun : x g₁ with
  | error e g' =>
      rw [hrun] at hends
      cases hends with
      | error hends =>
          obtain ⟨hends, hthrows⟩ := hends
          obtain ⟨new, hdone, -, hresult, -⟩ := hspoke g' hends
          rw [bind_of_error hrun]
          refine ⟨new, hdone, hends.order, hresult, ?_, nofun⟩
          rintro _ _ ⟨⟩ -
          exact hthrows
  | ok b g' =>
      rw [hrun] at hends
      cases hends with
      | ok hends =>
          obtain ⟨hsound, hends⟩ := hends
          obtain ⟨new, hdone, hlength, hresult, hlive⟩ := hspoke g' hends
          obtain ⟨hsame, hcount, hstops⟩ := onRefs_after (Cell.put .frame) g'
          have hafter : after ((do
              onRefs (Cell.put .frame)
              pure (f b) : EStateM Exn (Gen R C) Nat) g') =
              after (onRefs (Cell.put .frame) g') := by
            cases hput : onRefs (Cell.put .frame) g' with
            | ok _ g'' =>
                rw [bind_of_ok hput]
                rfl
            | error e g'' =>
                rw [bind_of_error hput]
                rfl
          rw [bind_of_ok hrun]
          refine ⟨new, ?_, ?_, ?_, fun e g'' hthrow hnone => ?_,
            fun _ hnone => ?_⟩
          · rw [hafter, hsame, hdone]
          · rw [hafter, hsame]
            exact hends.order
          · rw [hafter, hcount, hresult]
          · -- without an end there is a reference left to release
            have hstop : g'.shared.stop = none := by
              rw [← hstops, ← hafter, hthrow]
              exact hnone
            obtain ⟨c', hrefs', hright'⟩ := hlive hstop
            obtain ⟨c'', hput, -⟩ := hright'.put
              (fun _ => (rfl : Lifetime.Place.frame = .frame))
            rw [bind_of_ok (onRefs_ok hrefs' hput)] at hthrow
            cases hthrow
          · rw [hafter, hstops] at hnone
            obtain ⟨c', hrefs', hright'⟩ := hlive hnone
            obtain ⟨c'', hput, hright''⟩ := hright'.put
              (fun _ => (rfl : Lifetime.Place.frame = .frame))
            rw [hafter, onRefs_ok hrefs' hput]
            refine ⟨hsound.setShared _, c'', ?_, hright''⟩
            rw [after_ok, shared_setShared]

end Gen

/-! ## The books of the program -/

/-- The requests that wait. -/
def outstanding (p : Program R C) : List Nat := p.links.flatMap Link.waits

/-- What was measured. -/
def lines (p : Program R C) : List UInt64 :=
  p.links.flatMap fun l => measured l.gen.done

/-- One element of a list is exchanged. -/
theorem flatMap_set {α β : Type} (f : α → List β) {ls : List α} {i : Nat}
    {l : α} (h : ls[i]? = some l) :
    ∃ rest, ∀ l', ((ls.set i l').flatMap f).Perm (f l' ++ rest) := by
  induction ls generalizing i with
  | nil => cases h
  | cons a ls ih =>
      cases i with
      | zero =>
          refine ⟨ls.flatMap f, fun l' => ?_⟩
          rw [List.set_cons_zero, List.flatMap_cons]
      | succ i =>
          obtain ⟨rest, hrest⟩ := ih h
          refine ⟨f a ++ rest, fun l' => ?_⟩
          rw [List.set_cons_succ, List.flatMap_cons]
          refine ((hrest l').append_left _).trans ?_
          rw [← List.append_assoc, ← List.append_assoc]
          exact List.perm_append_comm.append_right rest

theorem flatMap_perm {α β : Type} {f : α → List β} {ls : List α} {i : Nat}
    {l : α} (h : ls[i]? = some l) {rest : List β}
    (hrest : ∀ l', ((ls.set i l').flatMap f).Perm (f l' ++ rest)) :
    (ls.flatMap f).Perm (f l ++ rest) := by
  have hperm := hrest l
  obtain ⟨hlt, rfl⟩ := List.getElem?_eq_some_iff.mp h
  rwa [List.set_getElem_self] at hperm

/-- **What the program and the experiment agree on.**  Samples that were told
after the end are `late`. -/
structure Books (u : Setting) (net : Nat → Served) (late : List Sample)
    (p : Program R C) (a : Core) : Prop where
  like : Like p.client.core a
  pending : ∃ asked, asked.length = late.length ∧
    a.pending.Perm ((asked ++ outstanding p).map (u.experiment net).request)
  samples : (a.results.service.samples ++ measured late).Perm (lines p)

/-- A generator that `k` others refer to besides its requests. -/
structure Link.Sound (u : Setting) (k : Nat) (asked : List Nat)
    (l : Link R C) : Prop where
  gen : l.gen.Sound u asked
  refs : ∃ c, l.gen.shared.refs = .ok c ∧ c.Right (k + l.waits.length)

/-- A call changed the counters, the `i`-th generator and the ghost state. -/
def moved (i : Nat) (l : Link R C) (core : Core) (serves : List Served)
    (p : Program R C) : Program R C :=
  { p with
    client := { p.client with core := core }
    links := p.links.set i l
    serves := serves }

/-- The other generators are as they were. -/
theorem links_moved {p : Program R C} {i j : Nat} {l l' : Link R C}
    {core : Core} {serves : List Served}
    (h : (p.moved i l core serves).links[j]? = some l') :
    j = i ∧ l' = l ∨ j ≠ i ∧ p.links[j]? = some l' := by
  replace h : (p.links.set i l)[j]? = some l' := h
  by_cases hj : j = i
  · subst hj
    have hlt := (List.getElem?_eq_some_iff.mp h).1
    rw [List.length_set] at hlt
    rw [List.getElem?_set_self hlt] at h
    exact .inl ⟨rfl, (Option.some.inj h).symm⟩
  · rw [List.getElem?_set_ne (Ne.symm hj)] at h
    exact .inr ⟨hj, h⟩

section Calls

variable {net : Nat → Served} {p : Program R C} {a a' : Core} {i : Nat}
  {l : Link R C}

/-- The first requests are told. -/
theorem Link.waits_told {g : Gen R C} {new : List Sample}
    (hdone : g.done = l.gen.done ++ new) :
    ({ l with gen := g } : Link R C).waits = l.waits.drop new.length := by
  simp only [Link.waits, hdone, List.length_append, List.drop_drop]

/-- Samples were told, the first `j` of them before the end. -/
theorem Books.told (h : Books u net [] p a) (hl : p.links[i]? = some l)
    {others : List Nat} (hothers : ∀ l' : Link R C,
      ((p.links.set i l').flatMap Link.waits).Perm (l'.waits ++ others))
    {g : Gen R C} {new : List Sample} (hdone : g.done = l.gen.done ++ new)
    (hwaits : new.length ≤ l.waits.length) {core : Core}
    (hlike : Like core a') {j : Nat} (hj : j ≤ new.length)
    (hpending : a'.pending.Perm
      ((l.waits.drop j ++ others).map (u.experiment net).request))
    (hsamples : a'.results.service.samples =
      a.results.service.samples ++ measured (new.take j))
    (serves : List Served) :
    Books u net (new.drop j) (p.moved i { l with gen := g } core serves)
      a' := by
  refine ⟨hlike, ⟨(l.waits.drop j).take (new.length - j), ?_, ?_⟩, ?_⟩
  · rw [List.length_take, List.length_drop, List.length_drop]
    omega
  · have hleft : ({ l with gen := g } : Link R C).waits =
        (l.waits.drop j).drop (new.length - j) := by
      rw [List.drop_drop, Nat.add_sub_cancel' hj]
      exact Link.waits_told hdone
    refine hpending.trans (List.Perm.map _ ?_)
    refine List.Perm.trans ?_ ((hothers _).symm.append_left _)
    rw [hleft, ← List.append_assoc, List.take_append_drop]
  · obtain ⟨rest, hrest⟩ := flatMap_set
      (fun l : Link R C => measured l.gen.done) hl
    have hold := h.samples.trans (flatMap_perm hl hrest)
    rw [show measured [] = [] from rfl, List.append_nil] at hold
    refine List.Perm.trans ?_ (hrest _).symm
    rw [hsamples, List.append_assoc, ← measured_append, List.take_append_drop,
      hdone, measured_append, List.append_assoc]
    refine (hold.append_right _).trans ?_
    rw [List.append_assoc]
    exact List.perm_append_comm.append_left _

/-- The number of bytes a call returned. -/
def bytesOf (r : EStateM.Result Exn (Gen R C) Nat) : Nat :=
  match r with
  | .ok n _ => n
  | .error _ _ => 0

theorem served_bytes (rcvd took : Nat) (l : Link R C)
    (r : EStateM.Result Exn (Gen R C) Nat) :
    (served u rcvd l took r).bytes = .ofNat (bytesOf r) := by
  cases r <;> rfl

/-- What is known after a call. -/
structure CallEnd (u : Setting) (net : Nat → Served) (p : Program R C)
    (i : Nat) (l : Link R C) (serves : List Served) (late : List Sample)
    (g : Gen R C) (p' : Program R C) (a' : Core) : Prop where
  moved : p' = p.moved i { l with gen := g } p'.client.core serves
  order : InOrder u l.made g.done
  books : Books u net late p' a'

section Ends

variable {sending : Bool} {took : Nat} {r : EStateM.Result Exn (Gen R C) Nat}
  {core : Core} {serves : List Served}
  (hserves : serves = if sending then
    p.serves ++ [served u p.client.core.rcvdCount l took r] else p.serves)

include hserves

/-- A callback ended the program. -/
theorem came_stopped {reason : Reason}
    (h : (after r).shared.result = .error reason core) :
    p.came u sending i took l r =
      .error reason (p.moved i { l with gen := after r } core serves) := by
  obtain ⟨hstop, rfl⟩ := Shared.result_of_error h
  rw [hserves]
  simp only [came, hstop]
  rfl

/-- The call threw. -/
theorem came_threw {e : Exn} {g : Gen R C} (hr : r = .error e g)
    (h : (after r).shared.result = .ok () core) :
    p.came u sending i took l r =
      .error (.connection e) (p.moved i { l with gen := g }
        (core.advance took) serves) := by
  obtain ⟨hstop, rfl⟩ := Shared.result_of_ok h
  subst hr
  rw [hserves]
  simp only [came, hstop]
  rfl

/-- The call returned. -/
theorem came_returned {n : Nat} {g : Gen R C} (hr : r = .ok n g)
    (h : (after r).shared.result = .ok () core) :
    p.came u sending i took l r =
      .ok n (p.moved i { l with gen := g } (core.advance took) serves) := by
  obtain ⟨hstop, rfl⟩ := Shared.result_of_ok h
  subst hr
  rw [hserves]
  simp only [came, hstop]
  rfl

end Ends

/-- A call is noted when it sends a request. -/
theorem came_serves (sending : Bool) (took : Nat)
    (r : EStateM.Result Exn (Gen R C) Nat) :
    (after (p.came u sending i took l r)).serves = if sending then
      p.serves ++ [served u p.client.core.rcvdCount l took r]
      else p.serves := by
  cases hstop : (after r).shared.stop with
  | some stop => simp only [came, hstop, after_error]
  | none =>
      simp only [came, hstop]
      cases r <;> rfl

/-- The experiment's call, once the responses are there. -/
theorem serve_of_ok {e : Experiment} {s : Served}
    (h : runAll e.complete s.completions a = .ok () a') :
    e.serve s a = if s.fails then .error .connection (a'.advance s.took)
      else .ok () (a'.advance s.took) := by
  refine (bind_of_ok h).trans ((bind_of_ok rfl).trans ?_)
  rw [runIf]
  cases s.fails <;> rfl

/-- **A call of a generator** is a call of a connection in the experiment. -/
theorem callGen_simulates (hbooks : Books u net [] p a)
    (hl : p.links[i]? = some l) {k : Nat} {new : List Sample}
    {x : EStateM Exn (Gen R C) Nat}
    (hcame : Gen.Came u l.made (k + l.waits.length) new (p.lent l)
      (x (p.lent l))) (sending : Bool) (took : Nat) {s : Served}
    (hs : s = served u p.client.core.rcvdCount l took (x (p.lent l)))
    {serves : List Served}
    (hserves : serves = if sending then p.serves ++ [s] else p.serves) :
    Agree Reason.stop
      (fun _ p' a' => ∃ g, CallEnd u net p i l serves [] g p' a' ∧
        Link.Sound u k l.made { l with gen := g })
      (fun reason p' a' => u.EndsBy reason ∧
        ∃ late g, CallEnd u net p i l serves late g p' a')
      (callGen u sending i took x p)
      (((u.experiment net).serve s >>= fun _ =>
        pure (bytesOf (x (p.lent l)))) a) := by
  obtain ⟨others, hothers⟩ := flatMap_set Link.waits hl
  have hdone : (after (x (p.lent l))).done = l.gen.done ++ new := by
    rw [hcame.done, lent, Gen.done_setShared]
  have horder := hcame.order
  have hwaits : new.length ≤ l.waits.length := by
    rw [hdone] at horder
    exact Gen.length_le_of_order horder
  have hmeasures : new.map (·.measure) <+: l.waits.map u.offline.measure := by
    obtain ⟨rest, hrest⟩ := horder.flags
    refine ⟨rest, ?_⟩
    have hdrop := congrArg (List.drop l.gen.done.length) hrest
    rw [hdone, List.map_append, List.append_assoc,
      List.drop_left' (List.length_map ..), ← List.map_drop] at hdrop
    exact hdrop
  have hcompletions : s.completions =
      completions u p.client.core.rcvdCount l.waits new := by
    rw [hs]
    show completions _ _ _ (((after (x (p.lent l))).done).drop _) = _
    rw [hdone, List.drop_left]
  obtain ⟨asked, hnone, hpending⟩ := hbooks.pending
  rw [List.length_nil] at hnone
  rw [List.eq_nil_of_length_eq_zero hnone, List.nil_append] at hpending
  have hsim := ((responses_simulate net new hbooks.like hmeasures
    (hpending.trans ((flatMap_perm hl hothers).map _))).ends_and
      ((throws_runAll respond_throws new).ends _)).onThrow
        (χ := Reason.stop) (ψ := .client) fun _ => rfl
  have hresult := hcame.result
  rw [lent, Gen.shared_setShared, ← lent] at hresult
  rw [← hcompletions, ← hresult] at hsim
  have hcall : callGen u sending i took x p =
      p.came u sending i took l (x (p.lent l)) := by
    simp only [callGen, hl]
  rw [hcall]
  subst hs
  cases hstop : (after (x (p.lent l))).shared.result with
  | error reason core =>
      rw [hstop] at hsim
      cases hserve : runAll (u.experiment net).complete _ a with
      | ok _ a' =>
          rw [hserve] at hsim
          cases hsim
      | error stop' a' =>
          rw [hserve] at hsim
          have hthrow : (u.experiment net).serve _ a = .error stop' a' :=
            bind_of_error hserve
          rw [came_stopped hserves hstop, bind_of_error hthrow]
          cases hsim with
          | error hsim =>
              obtain ⟨_, rfl, hreason, hlike, j, hj, hpending, hsamples⟩ := hsim
              exact .error ⟨hreason, new.drop j, _, rfl, horder,
                hbooks.told hl hothers hdone hwaits hlike hj hpending hsamples
                  serves⟩
  | ok _ core =>
      rw [hstop] at hsim
      cases hserve : runAll (u.experiment net).complete _ a with
      | error stop' a' =>
          rw [hserve] at hsim
          cases hsim
      | ok _ a' =>
          rw [hserve] at hsim
          have hend := serve_of_ok hserve
          cases hsim with
          | ok hsim =>
              obtain ⟨-, hlike, hpending, hsamples⟩ := hsim
              have hlater := hlike.map (f := Core.advance took) fun _ => rfl
              have htold := hbooks.told hl hothers hdone hwaits hlater
                (Nat.le_refl _) hpending
                (by rw [List.take_length]; exact hsamples) serves
              rw [List.drop_length] at htold
              cases hrun : x (p.lent l) with
              | error ex g =>
                  rw [hrun] at hserves horder htold hend hstop
                  have hthrow : (u.experiment net).serve _ a =
                    .error .connection (a'.advance took) := hend
                  have hreason := hcame.throws ex g hrun
                    (Shared.result_of_ok hstop).1
                  rw [came_threw hserves rfl hstop, bind_of_error hthrow]
                  exact Agree.error (φ := Reason.stop) (e := .connection ex)
                    ⟨hreason, [], g, rfl, horder, htold⟩
              | ok n g =>
                  have hsound := hcame.sound
                  rw [hrun] at hserves horder htold hend hstop hsound
                  have hreturn : (u.experiment net).serve _ a =
                    .ok () (a'.advance took) := hend
                  obtain ⟨hg, c, hrefs, hright⟩ :=
                    hsound rfl (Shared.result_of_ok hstop).1
                  rw [came_returned hserves rfl hstop, bind_of_ok hreturn]
                  refine .ok ⟨g, ⟨rfl, horder, htold⟩, hg, c, hrefs, ?_⟩
                  rw [hrun] at hdone
                  have hleft := Link.waits_told (g := g) hdone
                  rw [hleft, List.length_drop, ← Nat.add_sub_assoc hwaits]
                  exact hright

end Calls

end Program

end Mutated.Ports
