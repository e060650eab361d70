import Mathlib.Logic.Relation
import Mutated.Ports.Buffer
import Mutated.Ports.Opts
import Mutated.Verified.History

/-!
# The lifetime of a generator

A generator counts its references.  The pool holds one, and so does every
request until it completes, and `send_request` and `run_io` while they run; a
connection made for one request starts with the reference of that request.
`put` deletes the generator when the last reference is gone, which must not
happen inside a completion callback, because the caller goes on to use the
generator.

`System` is the client with all its generators, between any two of these
events.  It does not say when requests complete: any request may, as soon as a
function of its generator runs.

* Generators are numbered in the order they are created, and stay in the list
  when they are deleted; using one then stands for an exception.
* `events` are what `epoll_wait` returned and the loop has not handled yet.
* `pending` is ghost state, and so is the place where a generator was deleted.

## Main results

`lifetime`: in every reachable state the count is the number of references,
and what follows from that.
-/

namespace Mutated.Ports

open Mutated.Verified.History
open Relation (ReflTransGen)

namespace Lifetime

/-! ## Reference counts -/

/-- The functions that call `put`: the completion callback, and
`send_request` and `run_io` when they end. -/
inductive Place
  | callback
  | frame
  deriving DecidableEq, Repr

/-- `ref_cnt_` of a generator, and where it was deleted. -/
structure Cell where
  refCnt : Int
  deleted : List Place
  deriving DecidableEq, Repr

namespace Cell

/-- The constructor. -/
def new : Cell := ⟨1, []⟩

/-- The exception that stands for using a deleted generator. -/
def useAfterDelete : Exn :=
  .undefinedBehaviour "Generator: use after delete"

/-- `get`. -/
def get (c : Cell) : Except Exn Cell :=
  if c.deleted ≠ [] then .error useAfterDelete
  else .ok { c with refCnt := c.refCnt + 1 }

/-- `put`. -/
def put (place : Place) (c : Cell) : Except Exn Cell :=
  let refCnt := c.refCnt - 1
  if c.deleted ≠ [] then .error useAfterDelete
  else if refCnt = 0 then .ok ⟨refCnt, c.deleted ++ [place]⟩
  else if refCnt < 0 then .error (.runtimeError "Generator::put refcnt < 0")
  else .ok { c with refCnt := refCnt }

/-- The cell is right when `k` references are out: it counts them, and was
deleted, once and at the end of a function, exactly when there are none. -/
def Right (k : Nat) (c : Cell) : Prop :=
  c.refCnt = k ∧ c.deleted = if k = 0 then [.frame] else []

theorem Right.alive {k : Nat} {c : Cell} (h : Right k c) :
    c.deleted = [] ↔ 0 < k := by
  rw [h.2]
  by_cases hk : k = 0
  · rw [if_pos hk]
    exact iff_of_false (by decide) (by omega)
  · rw [if_neg hk]
    exact iff_of_true rfl (by omega)

theorem Right.get {k : Nat} {c : Cell} (h : Right k c) (hk : 0 < k) :
    ∃ c', c.get = .ok c' ∧ Right (k + 1) c' := by
  have hlive := h.alive.mpr hk
  refine ⟨{ c with refCnt := c.refCnt + 1 }, ?_, ?_, ?_⟩
  · rw [Cell.get, if_neg (not_not_intro hlive)]
  · show c.refCnt + 1 = _
    rw [h.1]
    rfl
  · rw [if_neg (Nat.succ_ne_zero k)]
    exact hlive

/-- The last reference is released at the end of a function of the
generator. -/
theorem Right.put {k : Nat} {c : Cell} (h : Right (k + 1) c) {place : Place}
    (hlast : k = 0 → place = .frame) :
    ∃ c', c.put place = .ok c' ∧ Right k c' := by
  have hlive := h.alive.mpr (Nat.succ_pos k)
  have hcount := h.1
  simp only [Cell.put, if_neg (not_not_intro hlive)]
  rcases Nat.eq_zero_or_pos k with rfl | hk
  · rw [if_pos (by omega)]
    refine ⟨_, rfl, ?_, ?_⟩
    · show c.refCnt - 1 = _
      omega
    · rw [hlive, hlast rfl]
      rfl
  · rw [if_neg (by omega), if_neg (by omega)]
    refine ⟨_, rfl, ?_, ?_⟩
    · show c.refCnt - 1 = _
      omega
    · rw [if_neg (by omega)]
      exact hlive

end Cell

/-! ## The client -/

/-- The client and its generators: `conns_`, the `idx` of `get_connection`,
the connection that was picked for the next request, the generator one of
whose functions runs, and the events still to be handled. -/
structure System where
  gens : List Cell
  conns : List Nat
  idx : BitVec 32
  sending : Option Nat
  frame : Option Nat
  events : List Nat
  pending : Nat → Nat

namespace System

/-- `g->get()` or `g->put()`. -/
def onGen (s : System) (g : Nat) (f : Cell → Except Exn Cell) :
    Except Exn System :=
  match s.gens[g]? with
  | none => .error (.undefinedBehaviour "Client: wild pointer")
  | some c => (f c).map fun c => { s with gens := s.gens.set g c }

/-- `new_connection`. -/
def newConnection (s : System) : Nat × System :=
  (s.gens.length, { s with gens := s.gens ++ [.new] })

/-- `n` turns of the loop of `setup_connections`. -/
def poolOf : Nat → System → System
  | 0, s => s
  | n + 1, s =>
      let (g, s) := s.newConnection
      poolOf n { s with conns := s.conns ++ [g] }

/-- A client of `n` connections once `setup_connections` returned. -/
def start (mode : ConnMode) (n : Nat) : System :=
  let s : System := ⟨[], [], 0, none, none, [], fun _ => 0⟩
  match mode with
  | .perRequest => s
  | _ => poolOf n s

/-- The exception that stands for a pick from an empty `conns_`. -/
def emptyPool : Exn :=
  .undefinedBehaviour "Client::get_connection: no connections"

/-- A reference to a connection of the pool. -/
def pick (s : System) (i : Nat) : Except Exn (Nat × System) :=
  match s.conns[i]? with
  | none => .error emptyPool
  | some g => (s.onGen g Cell.get).map fun s => (g, s)

/-- `get_connection`, where `draw` is what `conn_dist_` draws.  The `int`
`idx` wraps around, and is converted to `size_t`. -/
def getConnection (mode : ConnMode) (draw : Nat) (s : System) :
    Except Exn (Nat × System) :=
  match mode with
  | .perRequest => .ok s.newConnection
  | .roundRobin =>
      pick { s with idx := s.idx + 1 }
        ((s.idx.signExtend 64).toNat % s.conns.length)
  | .random => s.pick draw

/-- The connection `g` was picked for a request. -/
def picked (s : System) (g : Nat) : System :=
  { s with
    sending := some g
    pending := fun j => if j = g then s.pending j + 1 else s.pending j }

end System

/-- What happens next: the client picks a connection for a request and calls
its `send_request`, or waits for events and calls `run_io` for the next one; a
request of the generator whose function runs completes, or the function
ends. -/
inductive Action
  | getConnection (draw : Nat)
  | sendRequest
  | epollWait (events : List Nat)
  | runIo
  | complete
  | leave

namespace Action

def call (mode : ConnMode) : Action → System → Except Exn System
  | .getConnection draw, s => do
      let (g, s) ← s.getConnection mode draw
      pure (s.picked g)
  | .sendRequest, s =>
      match s.sending with
      | none => pure s
      | some g => do
          let s ← s.onGen g Cell.get
          pure { s with sending := none, frame := some g }
  | .epollWait events, s => pure { s with events := events }
  | .runIo, s =>
      match s.events with
      | [] => pure s
      | g :: events => do
          let s ← s.onGen g Cell.get
          pure { s with events := events, frame := some g }
  | .complete, s =>
      match s.frame with
      | none => pure s
      | some g => do
          let s ← s.onGen g (Cell.put .callback)
          pure { s with pending := fun j =>
            if j = g then s.pending j - 1 else s.pending j }
  | .leave, s =>
      match s.frame with
      | none => pure s
      | some g => do
          let s ← s.onGen g (Cell.put .frame)
          pure { s with frame := none }

/-- When it can happen.  A draw is in the bounds of `conn_dist_`; an event is
for a connection that is open, and there is one event for each; a request
completes once. -/
def Enabled (s : System) : Action → Prop
  | .getConnection draw =>
      s.sending = none ∧ s.frame = none ∧
        (s.conns ≠ [] → draw < s.conns.length)
  | .sendRequest => s.sending ≠ none
  | .epollWait events =>
      s.sending = none ∧ s.frame = none ∧ s.events = [] ∧ events.Nodup ∧
        ∀ g ∈ events, ∃ c, s.gens[g]? = some c ∧ c.deleted = []
  | .runIo => s.sending = none ∧ s.frame = none ∧ s.events ≠ []
  | .complete => ∃ g, s.frame = some g ∧ 0 < s.pending g
  | .leave => s.frame ≠ none

end Action

/-- One action. -/
def Step (mode : ConnMode) (s t : System) : Prop :=
  ∃ a : Action, a.Enabled s ∧ a.call mode s = .ok t

/-- The states of a client of `n` connections. -/
def Reachable (mode : ConnMode) (n : Nat) (s : System) : Prop :=
  ReflTransGen (Step mode) (.start mode n) s

/-! ## The invariant -/

/-- The references to a generator: the pool's, one for each request that has
not completed, and one for the function that runs. -/
def System.owners (s : System) (g : Nat) : Nat :=
  (if g ∈ s.conns then 1 else 0) + s.pending g +
    (if s.frame = some g then 1 else 0)

/-- **The invariant.**  A generator that an event is for and that is not in
the pool has a request that did not complete. -/
structure Counted (mode : ConnMode) (n : Nat) (s : System) : Prop where
  right : ∀ (g : Nat) (c : Cell), s.gens[g]? = some c → c.Right (s.owners g)
  unborn : ∀ g, s.gens.length ≤ g → s.owners g = 0
  pool : s.conns = if mode = .perRequest then [] else List.range n
  sending : ∀ g, s.sending = some g → s.frame = none ∧ 0 < s.pending g
  nodup : s.events.Nodup
  events : ∀ g ∈ s.events, g ∈ s.conns ∨
    0 < s.pending g ∧ s.frame ≠ some g ∧ s.sending ≠ some g

namespace Counted

variable {mode : ConnMode} {n : Nat} {s : System}

theorem lt_of_owners (h : Counted mode n s) {g : Nat}
    (hg : 0 < s.owners g) : g < s.gens.length := by
  by_contra hge
  have hzero := h.unborn g (by omega)
  omega

theorem exists_of_owners (h : Counted mode n s) {g : Nat}
    (hg : 0 < s.owners g) : ∃ c, s.gens[g]? = some c :=
  ⟨_, List.getElem?_eq_getElem (h.lt_of_owners hg)⟩

/-- **The references to one generator change**, and its count with them. -/
private theorem counts (h : Counted mode n s) {t : System} {g k : Nat}
    (hlen : s.gens.length ≤ t.gens.length) (hg : g < t.gens.length)
    (hright : ∀ (j : Nat) (c : Cell), t.gens[j]? = some c →
      c.Right (if j = g then k else s.owners j))
    (howners : ∀ j, t.owners j = if j = g then k else s.owners j) :
    (∀ (j : Nat) (c : Cell), t.gens[j]? = some c → c.Right (t.owners j)) ∧
      ∀ j, t.gens.length ≤ j → t.owners j = 0 := by
  refine ⟨fun j c hc => ?_, fun j hj => ?_⟩
  · rw [howners]
    exact hright j c hc
  · rw [howners, if_neg (show j ≠ g by omega)]
    exact h.unborn j (Nat.le_trans hlen hj)

/-- A function on a cell that is right is called through a pointer. -/
theorem onGen (h : Counted mode n s) {g k : Nat} (hg : 0 < s.owners g)
    {f : Cell → Except Exn Cell}
    (hf : ∀ c : Cell, c.Right (s.owners g) → ∃ c', f c = .ok c' ∧ c'.Right k) :
    ∃ gens, s.onGen g f = .ok { s with gens := gens } ∧
      gens.length = s.gens.length ∧ ∀ (j : Nat) (c : Cell),
        gens[j]? = some c → c.Right (if j = g then k else s.owners j) := by
  obtain ⟨c, hc⟩ := h.exists_of_owners hg
  obtain ⟨c', hf, hright⟩ := hf c (h.right g c hc)
  refine ⟨s.gens.set g c', ?_, List.length_set .., ?_⟩
  · simp only [System.onGen, hc, hf]
    rfl
  · intro j d hd
    by_cases hj : j = g
    · subst hj
      have hlt := (List.getElem?_eq_some_iff.mp hc).1
      rw [List.getElem?_set_self hlt] at hd
      cases hd
      rw [if_pos rfl]
      exact hright
    · rw [List.getElem?_set_ne (Ne.symm hj)] at hd
      rw [if_neg hj]
      exact h.right j d hd

end Counted

/-! ## The start -/

private theorem poolOf_eq (n : Nat) : ∀ s : System,
    System.poolOf n s = { s with
      gens := s.gens ++ List.replicate n .new
      conns := s.conns ++ List.range' s.gens.length n } := by
  induction n with
  | zero =>
      intro s
      simp [System.poolOf]
  | succ n ih =>
      intro s
      simp only [System.poolOf, System.newConnection]
      rw [ih]
      simp [List.replicate_succ, List.range'_succ]

theorem start_counted (mode : ConnMode) (n : Nat) :
    Counted mode n (.start mode n) := by
  have hpool : ∀ hmode : mode ≠ .perRequest,
      Counted mode n (System.poolOf n ⟨[], [], 0, none, none, [], fun _ => 0⟩)
      := by
    intro hmode
    rw [poolOf_eq]
    refine ⟨?_, ?_, ?_, nofun, .nil, nofun⟩
    · intro g c hc
      obtain ⟨hlt, rfl⟩ := List.getElem?_eq_some_iff.mp hc
      simp only [List.nil_append, List.length_replicate] at hlt
      have hmem : g ∈ List.range' 0 n := by simpa using hlt
      simp [System.owners, hmem, Cell.Right, Cell.new]
    · intro g hg
      simp only [List.nil_append, List.length_replicate] at hg
      have hmem : g ∉ List.range' 0 n := by simpa using hg
      simp [System.owners, hmem]
    · rw [if_neg hmode, List.range_eq_range']
      rfl
  cases mode with
  | perRequest =>
      exact ⟨nofun, fun g _ => rfl, rfl, nofun, .nil, nofun⟩
  | roundRobin => exact hpool (by decide)
  | random => exact hpool (by decide)

/-! ## The actions -/

namespace Counted

variable {mode : ConnMode} {n : Nat} {s : System}

/-- A request is counted for the connection that was picked. -/
private theorem picked (h : Counted mode n s) {g : Nat} {gens : List Cell}
    {idx : BitVec 32} (hframe : s.frame = none)
    (hlen : s.gens.length ≤ gens.length) (hg : g < gens.length)
    (hright : ∀ (j : Nat) (c : Cell), gens[j]? = some c →
      c.Right (if j = g then s.owners g + 1 else s.owners j))
    (hfresh : ∀ e ∈ s.events, e ∈ s.conns ∨ e ≠ g) :
    Counted mode n (System.picked { s with gens := gens, idx := idx } g) := by
  have howners : ∀ j, (System.picked { s with gens := gens, idx := idx }
      g).owners j = if j = g then s.owners g + 1 else s.owners j := by
    intro j
    simp only [System.owners, System.picked]
    by_cases hj : j = g
    · subst hj
      rw [if_pos rfl, if_pos rfl]
      omega
    · rw [if_neg hj, if_neg hj]
  obtain ⟨hright', hunborn⟩ := h.counts hlen hg hright howners
  refine ⟨hright', hunborn, h.pool, ?_, h.nodup, ?_⟩
  · intro j hj
    cases hj
    refine ⟨hframe, ?_⟩
    simp [System.picked]
  · intro e he
    rcases h.events e he with hpool | ⟨hpending, hnot, -⟩
    · exact .inl hpool
    · rcases hfresh e he with hpool | hne
      · exact .inl hpool
      · refine .inr ⟨?_, hnot, fun hsend => hne (Option.some.inj hsend).symm⟩
        show 0 < if e = g then s.pending e + 1 else s.pending e
        rw [if_neg hne]
        exact hpending

private theorem pick_counted (h : Counted mode n s) (hframe : s.frame = none)
    (idx : BitVec 32) {i : Nat} (hi : i < s.conns.length) :
    ∃ g t, System.pick { s with idx := idx } i = .ok (g, t) ∧
      Counted mode n (t.picked g) := by
  have hmem := List.getElem_mem hi
  generalize hg : s.conns[i] = g at hmem
  have hpos : 0 < s.owners g := by
    rw [System.owners, if_pos hmem]
    omega
  have hidx : Counted mode n { s with idx := idx } :=
    ⟨h.right, h.unborn, h.pool, h.sending, h.nodup, h.events⟩
  obtain ⟨gens, hrun, hlen, hright⟩ := hidx.onGen (g := g) hpos
    (f := Cell.get) fun c hc => hc.get hpos
  obtain ⟨c, hc⟩ := h.exists_of_owners hpos
  refine ⟨g, { s with gens := gens, idx := idx }, ?_, ?_⟩
  · have hslot : s.conns[i]? = some g := by
      rw [List.getElem?_eq_getElem hi, hg]
    simp only [System.pick, hslot, hrun]
    rfl
  · refine h.picked hframe (Nat.le_of_eq hlen.symm) ?_ hright fun e he => ?_
    · rw [hlen]
      exact (List.getElem?_eq_some_iff.mp hc).1
    · by_cases heq : e = g
      · exact .inl (heq ▸ hmem)
      · exact .inr heq

/-- **A connection is picked** unless the pool is empty. -/
theorem getConnection (h : Counted mode n s) {draw : Nat}
    (hen : (Action.getConnection draw).Enabled s) :
    (∃ t, (Action.getConnection draw).call mode s = .ok t ∧
      Counted mode n t) ∨
    mode ≠ .perRequest ∧ n = 0 ∧
      (Action.getConnection draw).call mode s = .error System.emptyPool := by
  obtain ⟨-, hframe, hdraw⟩ := hen
  have hpool : mode ≠ .perRequest → s.conns.length = n := by
    intro hmode
    rw [h.pool, if_neg hmode, List.length_range]
  have hempty : mode ≠ .perRequest → n = 0 → mode ≠ .perRequest ∧ n = 0 ∧
      (Action.getConnection draw).call mode s = .error System.emptyPool := by
    intro hmode hzero
    have hnil := List.eq_nil_of_length_eq_zero ((hpool hmode).trans hzero)
    refine ⟨hmode, hzero, ?_⟩
    cases mode with
    | perRequest => exact absurd rfl hmode
    | roundRobin | random =>
        simp only [Action.call, System.getConnection, System.pick, hnil]
        rfl
  have hpicked : ∀ (idx : BitVec 32) {i : Nat}, i < s.conns.length →
      ∃ t, ((do
        let (g, s) ← System.pick { s with idx := idx } i
        pure (s.picked g) : Except Exn System)) = .ok t ∧
        Counted mode n t := by
    intro idx i hi
    obtain ⟨g, t, hrun, ht⟩ := h.pick_counted hframe idx hi
    refine ⟨_, ?_, ht⟩
    rw [hrun]
    rfl
  cases mode with
  | perRequest =>
      refine .inl ⟨_, rfl, h.picked hframe ?_ ?_ ?_ ?_⟩
      · rw [List.length_append]
        exact Nat.le_add_right _ _
      · rw [List.length_append, List.length_singleton]
        exact Nat.lt_succ_self _
      · intro j c hc
        have hnew := h.unborn s.gens.length (Nat.le_refl _)
        rcases getElem?_snoc hc with hold | ⟨rfl, rfl⟩
        · have hlt := (List.getElem?_eq_some_iff.mp hold).1
          rw [if_neg (Nat.ne_of_lt hlt)]
          exact h.right j c hold
        · rw [if_pos rfl, hnew]
          exact ⟨rfl, rfl⟩
      · intro e he
        refine .inr fun heq => ?_
        have hzero := h.unborn e (Nat.le_of_eq heq.symm)
        unfold System.owners at hzero
        rcases h.events e he with hpool | ⟨hpending, -⟩
        · rw [if_pos hpool] at hzero
          omega
        · omega
  | roundRobin =>
      have hn := hpool (by decide)
      rcases Nat.eq_zero_or_pos n with hzero | hpos
      · exact .inr (hempty (by decide) hzero)
      · exact .inl (hpicked _ (Nat.mod_lt _ (by omega)))
  | random =>
      have hn := hpool (by decide)
      rcases Nat.eq_zero_or_pos n with hzero | hpos
      · exact .inr (hempty (by decide) hzero)
      · refine .inl (hpicked s.idx (hdraw fun hnil => ?_))
        rw [hnil] at hn
        exact absurd hn (Nat.ne_of_lt hpos)

/-- A function of the generator is entered. -/
private theorem enter (h : Counted mode n s) {g : Nat}
    (hframe : s.frame = none) (hg : 0 < s.owners g) {events : List Nat}
    (hsub : events.Sublist s.events)
    (hevents : ∀ e ∈ events, e ∈ s.conns ∨ e ≠ g) :
    ∃ gens, s.onGen g Cell.get = .ok { s with gens := gens } ∧
      Counted mode n { s with
        gens := gens, events := events, sending := none, frame := some g } := by
  obtain ⟨gens, hrun, hlen, hright⟩ := h.onGen hg (f := Cell.get)
    fun c hc => hc.get hg
  have howners : ∀ j, System.owners { s with
      gens := gens, events := events, sending := none, frame := some g } j =
      if j = g then s.owners g + 1 else s.owners j := by
    intro j
    simp only [System.owners, hframe, Option.some.injEq, reduceCtorEq, if_false]
    by_cases hj : j = g
    · subst hj
      rw [if_pos rfl, if_pos rfl]
    · rw [if_neg (Ne.symm hj), if_neg hj]
  obtain ⟨hright', hunborn⟩ := h.counts (Nat.le_of_eq hlen.symm)
    (hlen ▸ h.lt_of_owners hg) hright howners
  refine ⟨gens, hrun, hright', hunborn, h.pool, nofun,
    h.nodup.sublist hsub, ?_⟩
  intro e he
  rcases h.events e (hsub.subset he) with hpool | ⟨hpending, -⟩
  · exact .inl hpool
  · rcases hevents e he with hpool | hne
    · exact .inl hpool
    · exact .inr ⟨hpending, fun heq => hne (Option.some.inj heq).symm, nofun⟩

/-- **`send_request` is entered.** -/
theorem sendRequest (h : Counted mode n s)
    (hen : Action.sendRequest.Enabled s) :
    ∃ t, Action.sendRequest.call mode s = .ok t ∧ Counted mode n t := by
  obtain ⟨g, hg⟩ := Option.ne_none_iff_exists'.mp hen
  obtain ⟨hframe, hpending⟩ := h.sending g hg
  have hpos : 0 < s.owners g := by
    unfold System.owners
    omega
  obtain ⟨gens, hrun, ht⟩ := h.enter hframe hpos (List.Sublist.refl _)
    fun e he => by
      rcases h.events e he with hpool | ⟨-, -, hne⟩
      · exact .inl hpool
      · exact .inr fun heq => hne (heq ▸ hg)
  refine ⟨_, ?_, ht⟩
  simp only [Action.call, hg, hrun]
  rfl

/-- **`epoll_wait` returns.** -/
theorem epollWait (h : Counted mode n s) {events : List Nat}
    (hen : (Action.epollWait events).Enabled s) :
    ∃ t, (Action.epollWait events).call mode s = .ok t ∧
      Counted mode n t := by
  obtain ⟨hsending, hframe, -, hnodup, hlive⟩ := hen
  refine ⟨_, rfl, h.right, h.unborn, h.pool, h.sending, hnodup, ?_⟩
  intro e he
  obtain ⟨c, hc, hdeleted⟩ := hlive e he
  have hpos := (h.right e c hc).alive.mp hdeleted
  simp only [System.owners, hframe, reduceCtorEq, if_false] at hpos
  by_cases hpool : e ∈ s.conns
  · exact .inl hpool
  · rw [if_neg hpool] at hpos
    refine .inr ⟨?_, ?_, ?_⟩
    · show 0 < s.pending e
      omega
    · rw [hframe]
      nofun
    · rw [hsending]
      nofun

/-- **`run_io` is entered**, for a generator that was not deleted. -/
theorem runIo (h : Counted mode n s) (hen : Action.runIo.Enabled s) :
    ∃ t, Action.runIo.call mode s = .ok t ∧ Counted mode n t := by
  obtain ⟨hsending, hframe, hne⟩ := hen
  cases hevents : s.events with
  | nil => exact absurd hevents hne
  | cons g rest =>
      have hpos : 0 < s.owners g := by
        unfold System.owners
        rcases h.events g (by rw [hevents]; exact List.mem_cons_self) with
          hpool | ⟨hpending, -⟩
        · rw [if_pos hpool]
          omega
        · omega
      have hnodup := h.nodup
      rw [hevents, List.nodup_cons] at hnodup
      obtain ⟨gens, hrun, ht⟩ := h.enter hframe hpos
        (by rw [hevents]; exact List.sublist_cons_self g rest)
        fun e he => .inr fun heq => hnodup.1 (heq ▸ he)
      rw [← hsending] at ht
      refine ⟨_, ?_, ht⟩
      simp only [Action.call, hevents, hrun]
      rfl

/-- **A request completes** while another reference is out. -/
theorem complete (h : Counted mode n s) (hen : Action.complete.Enabled s) :
    ∃ t, Action.complete.call mode s = .ok t ∧ Counted mode n t := by
  obtain ⟨g, hframe, hpending⟩ := hen
  have howned : s.owners g = (if g ∈ s.conns then 1 else 0) +
      (s.pending g - 1) + 1 + 1 := by
    rw [System.owners, if_pos hframe]
    omega
  obtain ⟨gens, hrun, hlen, hright⟩ := h.onGen (g := g) (by omega)
    (f := Cell.put .callback) fun c hc => by
      rw [howned] at hc
      exact hc.put (by omega)
  have howners : ∀ j, System.owners { s with
      gens := gens
      pending := fun j => if j = g then s.pending j - 1 else s.pending j } j =
      if j = g then (if g ∈ s.conns then 1 else 0) + (s.pending g - 1) + 1
        else s.owners j := by
    intro j
    simp only [System.owners]
    by_cases hj : j = g
    · subst hj
      rw [if_pos rfl, if_pos rfl, if_pos hframe]
    · rw [if_neg hj, if_neg hj]
  obtain ⟨hright', hunborn⟩ := h.counts (Nat.le_of_eq hlen.symm)
    (hlen ▸ h.lt_of_owners (by omega)) hright howners
  refine ⟨{ s with
    gens := gens
    pending := fun j => if j = g then s.pending j - 1 else s.pending j },
    by simp only [Action.call, hframe, hrun]; rfl,
    hright', hunborn, h.pool, ?_, h.nodup, ?_⟩
  · intro j hj
    exact absurd ((h.sending j hj).1.symm.trans hframe) nofun
  · intro e he
    rcases h.events e he with hpool | ⟨hpos, hnot, hsend⟩
    · exact .inl hpool
    · refine .inr ⟨?_, hnot, hsend⟩
      show 0 < if e = g then s.pending e - 1 else s.pending e
      rw [if_neg fun heq : e = g => hnot (heq ▸ hframe)]
      exact hpos

/-- **A function of a generator ends**, and with it the generator when it was
the last reference. -/
theorem leave (h : Counted mode n s) (hen : Action.leave.Enabled s) :
    ∃ t, Action.leave.call mode s = .ok t ∧ Counted mode n t := by
  obtain ⟨g, hframe⟩ := Option.ne_none_iff_exists'.mp hen
  have howned : s.owners g = (if g ∈ s.conns then 1 else 0) +
      s.pending g + 1 := by
    rw [System.owners, if_pos hframe]
  obtain ⟨gens, hrun, hlen, hright⟩ := h.onGen (g := g) (by omega)
    (f := Cell.put .frame) fun c hc => by
      rw [howned] at hc
      exact hc.put fun _ => rfl
  have howners : ∀ j, System.owners { s with
      gens := gens, frame := none } j =
      if j = g then (if g ∈ s.conns then 1 else 0) + s.pending g
        else s.owners j := by
    intro j
    simp only [System.owners, hframe, Option.some.injEq, reduceCtorEq,
      if_false, Nat.add_zero]
    by_cases hj : j = g
    · subst hj
      rw [if_pos rfl]
    · rw [if_neg hj, if_neg (Ne.symm hj), Nat.add_zero]
  obtain ⟨hright', hunborn⟩ := h.counts (Nat.le_of_eq hlen.symm)
    (hlen ▸ h.lt_of_owners (by omega)) hright howners
  refine ⟨_, by simp only [Action.call, hframe, hrun]; rfl, hright', hunborn,
    h.pool, ?_, h.nodup, ?_⟩
  · intro j hj
    exact absurd ((h.sending j hj).1.symm.trans hframe) nofun
  · intro e he
    rcases h.events e he with hpool | ⟨hpos, -, hsend⟩
    · exact .inl hpool
    · exact .inr ⟨hpos, nofun, hsend⟩

/-- **Every action** keeps the invariant, and returns unless the pool is
empty. -/
theorem act (h : Counted mode n s) {a : Action} (hen : a.Enabled s) :
    (∃ t, a.call mode s = .ok t ∧ Counted mode n t) ∨
    mode ≠ .perRequest ∧ n = 0 ∧
      a.call mode s = .error System.emptyPool := by
  cases a with
  | getConnection draw => exact h.getConnection hen
  | sendRequest => exact .inl (h.sendRequest hen)
  | epollWait events => exact .inl (h.epollWait hen)
  | runIo => exact .inl (h.runIo hen)
  | complete => exact .inl (h.complete hen)
  | leave => exact .inl (h.leave hen)

end Counted

/-! ## All reachable states -/

theorem Reachable.counted {mode : ConnMode} {n : Nat} {s : System}
    (h : Reachable mode n s) : Counted mode n s := by
  induction h with
  | refl => exact start_counted mode n
  | tail _ hstep ih =>
      obtain ⟨a, hen, hcall⟩ := hstep
      rcases ih.act hen with ⟨t, hrun, ht⟩ | ⟨-, -, hthrow⟩
      · cases hrun.symm.trans hcall
        exact ht
      · cases hthrow.symm.trans hcall

/-- **Generator lifetime.**  In every reachable state `ref_cnt_` is the number
of references, so it is never negative; a pooled generator is not deleted; any
other is deleted once, and at the end of `send_request` or `run_io`, exactly
when its requests completed and none of its functions runs; and nothing that
can happen next throws, except that an empty pool has nothing to pick. -/
theorem lifetime {mode : ConnMode} {n : Nat} {s : System}
    (h : Reachable mode n s) :
    (∀ (g : Nat) (c : Cell), s.gens[g]? = some c →
      c.refCnt = ((if g ∈ s.conns then 1 else 0) + s.pending g +
        (if s.frame = some g then 1 else 0) : Nat) ∧
      (g ∈ s.conns → c.deleted = []) ∧
      (g ∉ s.conns → c.deleted =
        if s.pending g = 0 ∧ s.frame ≠ some g then [.frame] else [])) ∧
    s.conns = (if mode = .perRequest then [] else List.range n) ∧
    ∀ a : Action, a.Enabled s → (∃ t, a.call mode s = .ok t) ∨
      mode ≠ .perRequest ∧ n = 0 ∧
        a.call mode s = .error System.emptyPool := by
  have hcounted := h.counted
  refine ⟨fun g c hc => ?_, hcounted.pool, fun a hen => ?_⟩
  · have hright := hcounted.right g c hc
    refine ⟨hright.1, fun hpool => ?_, fun hpool => ?_⟩
    · refine hright.alive.mpr ?_
      rw [System.owners, if_pos hpool]
      omega
    · rw [hright.2, System.owners, if_neg hpool]
      by_cases hframe : s.frame = some g
      · rw [if_pos hframe, if_neg (by omega), if_neg fun hidle =>
          hidle.2 hframe]
      · simp [hframe]
  · rcases hcounted.act hen with ⟨t, hrun, -⟩ | hthrow
    · exact .inl ⟨t, hrun⟩
    · exact .inr hthrow

/-- A connection for one request, which completes inside of its own
`send_request`. -/
theorem lifetime_oneRequest : ∃ s, Reachable .perRequest 0 s ∧
    s.gens = [⟨0, [.frame]⟩] ∧
    ∀ a : Action, a.Enabled s → ∃ t, a.call .perRequest s = .ok t := by
  have hstep : ∀ {s t : System}, Reachable .perRequest 0 s → ∀ a : Action,
      a.Enabled s → a.call .perRequest s = .ok t → Reachable .perRequest 0 t :=
    fun hs a hen hcall => hs.tail ⟨a, hen, hcall⟩
  have hpicked := hstep .refl (.getConnection 0)
    ⟨rfl, rfl, fun hne => absurd rfl hne⟩ rfl
  have hsending := hstep hpicked .sendRequest (Option.some_ne_none 0) rfl
  have hcompleted := hstep hsending .complete ⟨0, rfl, by decide⟩ rfl
  have hended := hstep hcompleted .leave (Option.some_ne_none 0) rfl
  refine ⟨_, hended, rfl, fun a hen => ?_⟩
  exact ((lifetime hended).2.2 a hen).resolve_right fun hpool => hpool.1 rfl

end Lifetime

end Mutated.Ports
