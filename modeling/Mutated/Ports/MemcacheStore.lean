import Mutated.Ports.MemcacheAsked
import Mutated.Ports.MemcacheFraming

/-!
# A server behind the loader and the generator

`Serves` says what a memcache server answers that refuses nothing: it stores
the value of a set, answers a loud set without a body and a quiet one not at
all, and answers a get with the value that is stored, or that there is none.
It may answer late, but only to what it has read.

## Main results

* `finished_stored`: when `run` of the loader returns, such a server holds the
  value for every key.
* `gets_hit`: a generator with the same keys then finds a value for every get,
  and skips exactly its bytes.
-/

namespace Mutated.Ports

open Mutated.Verified.Circular
open Mutated.Verified.Exec
open Mutated.Verified.Framing
open Mutated.Verified.Groups

/-! ## The server -/

/-- An item: flags and value. -/
abbrev Item := List UInt8 × List UInt8

/-- The items that a server holds for keys. -/
abbrev Store := List UInt8 → Option Item

/-- The extras of a set ask to keep the item for good. -/
def Lasting (extras : List UInt8) : Prop := extras.drop 4 = List.replicate 4 0

instance (extras : List UInt8) : Decidable (Lasting extras) :=
  inferInstanceAs (Decidable (_ = _))

/-- The store after a request.  An item that may expire does not count. -/
def Store.apply (st : Store) (r : MemcPacket) : Store :=
  if r.cmd = .get then st
  else Function.update st r.key
    (if Lasting r.extras then some (r.extras.take 4, r.value) else none)

def Store.applyAll (st : Store) (rs : List MemcPacket) : Store :=
  rs.foldl Store.apply st

/-- The status of a response. -/
def Response.status (resp : Response) : List UInt8 :=
  (resp.header.drop 6).take 2

/-- `MemcStatus::OK`. -/
def statusOk : List UInt8 := [0, 0]

/-- What the server answers to a request. -/
inductive Answered (st : Store) (r : MemcPacket) : List Response → Prop
  | quiet (hcmd : r.cmd = .setq) : Answered st r []
  | stored {resp : Response} (hcmd : r.cmd = .set)
      (hstatus : resp.status = statusOk) (hbody : resp.body = []) :
      Answered st r [resp]
  | hit {resp : Response} {item : Item} (hcmd : r.cmd = .get)
      (hitem : st r.key = some item) (hstatus : resp.status = statusOk)
      (hbody : resp.body = item.1 ++ item.2) : Answered st r [resp]
  | miss {resp : Response} (hcmd : r.cmd = .get) (hitem : st r.key = none)
      (hstatus : resp.status ≠ statusOk) : Answered st r [resp]

/-- What it answers to one request after another. -/
inductive Serves : Store → List MemcPacket → List Response → Prop
  | nil {st : Store} : Serves st [] []
  | cons {st : Store} {r : MemcPacket} {rs : List MemcPacket}
      {resps more : List Response} (hfirst : Answered st r resps)
      (hrest : Serves (st.apply r) rs more) :
      Serves st (r :: rs) (resps ++ more)

/-! ## What the store holds -/

section Store

variable {st : Store} {r : MemcPacket} {rs : List MemcPacket}
  {key : List UInt8} {item : Item}

/-- Other keys keep their items. -/
theorem Store.apply_of_ne (h : r.key ≠ key) : st.apply r key = st key := by
  by_cases hget : r.cmd = .get
  · rw [Store.apply, if_pos hget]
  · rw [Store.apply, if_neg hget]
    exact Function.update_of_ne (Ne.symm h) _ _

theorem Store.apply_self (hcmd : r.cmd ≠ .get) (hlasting : Lasting r.extras) :
    st.apply r r.key = some (r.extras.take 4, r.value) := by
  rw [Store.apply, if_neg hcmd, Function.update_self, if_pos hlasting]

theorem Store.apply_get (hcmd : r.cmd = .get) : st.apply r = st :=
  if_pos hcmd

/-- A property of items that every set for the key keeps. -/
theorem Store.applyAll_holds {P : Item → Prop} :
    ∀ {rs : List MemcPacket} {st : Store},
    (∃ item, st key = some item ∧ P item) →
    (∀ r ∈ rs, r.cmd ≠ .get → r.key = key →
      Lasting r.extras ∧ P (r.extras.take 4, r.value)) →
    ∃ item, st.applyAll rs key = some item ∧ P item := by
  intro rs
  induction rs with
  | nil => exact fun h _ => h
  | cons r rs ih =>
      intro st h hall
      refine ih ?_ fun r' hr' => hall r' (List.mem_cons_of_mem _ hr')
      by_cases hget : r.cmd = .get
      · rwa [Store.apply_get hget]
      · by_cases hkey : r.key = key
        · obtain ⟨hlasting, hP⟩ := hall r List.mem_cons_self hget hkey
          subst hkey
          exact ⟨_, Store.apply_self hget hlasting, hP⟩
        · rwa [Store.apply_of_ne hkey]

/-- A key that was set holds what all its sets agree on. -/
theorem Store.applyAll_stored (hmem : r ∈ rs) (hcmd : r.cmd ≠ .get)
    (hall : ∀ r' ∈ rs, r'.cmd ≠ .get → r'.key = r.key →
      Lasting r'.extras ∧ (r'.extras.take 4, r'.value) = item) :
    st.applyAll rs r.key = some item := by
  obtain ⟨front, back, rfl⟩ := List.append_of_mem hmem
  obtain ⟨hlasting, hitem⟩ := hall r hmem hcmd rfl
  obtain ⟨item', hstored, rfl⟩ : ∃ item',
      ((st.applyAll front).apply r).applyAll back r.key = some item' ∧
        item' = item :=
    Store.applyAll_holds ⟨_, Store.apply_self hcmd hlasting, hitem⟩
      fun r' hr' =>
        hall r' (List.mem_append_right _ (List.mem_cons_of_mem _ hr'))
  rw [Store.applyAll, List.foldl_append, List.foldl_cons]
  exact hstored

end Store

/-! ## How much is answered -/

/-- The requests that are answered. -/
def answeredOf (rs : List MemcPacket) : List MemcPacket :=
  rs.filter fun r => r.cmd ≠ .setq

/-- **The `k`-th response** answers the `k`-th request that is answered, with
the store that the requests before it left. -/
theorem Serves.response : ∀ {rs : List MemcPacket} {st : Store}
    {resps : List Response}, Serves st rs resps → ∀ {k : Nat} {resp : Response},
    resps[k]? = some resp → ∃ front r back, rs = front ++ r :: back ∧
      (answeredOf rs)[k]? = some r ∧
      Answered (st.applyAll front) r [resp] := by
  intro rs st resps h
  induction h with
  | nil =>
      intro k resp hk
      cases hk
  | @cons st r rs first more hfirst hrest ih =>
      intro k resp hk
      have hlater : ∀ {k : Nat}, more[k]? = some resp →
          ∃ front r' back, r :: rs = front ++ r' :: back ∧
            (answeredOf rs)[k]? = some r' ∧
            Answered (st.applyAll front) r' [resp] := by
        intro k hk
        obtain ⟨front, r', back, rfl, hget, hanswers⟩ := ih hk
        exact ⟨r :: front, r', back, rfl, hget, hanswers⟩
      have hone : first.length = 1 → r.cmd ≠ .setq →
          ∃ front r' back, r :: rs = front ++ r' :: back ∧
            (answeredOf (r :: rs))[k]? = some r' ∧
            Answered (st.applyAll front) r' [resp] := by
        intro hlen hloud
        have hanswered : answeredOf (r :: rs) = r :: answeredOf rs := by
          simp [answeredOf, hloud]
        obtain ⟨only, rfl⟩ := List.length_eq_one_iff.mp hlen
        rw [hanswered]
        cases k with
        | zero =>
            cases hk
            exact ⟨[], r, rs, rfl, rfl, hfirst⟩
        | succ k => exact hlater hk
      cases hfirst with
      | quiet hcmd =>
          obtain ⟨front, r', back, hrs, hget, hanswers⟩ := hlater hk
          refine ⟨front, r', back, hrs, ?_, hanswers⟩
          simp only [answeredOf, List.filter_cons, hcmd, ne_eq,
            not_true_eq_false, decide_false]
          exact hget
      | stored hcmd => exact hone rfl (by rw [hcmd]; nofun)
      | hit hcmd => exact hone rfl (by rw [hcmd]; nofun)
      | miss hcmd => exact hone rfl (by rw [hcmd]; nofun)

/-- There is one response for each request that is answered. -/
theorem Serves.length_eq {st : Store} {rs : List MemcPacket}
    {resps : List Response} (h : Serves st rs resps) :
    resps.length = (answeredOf rs).length := by
  induction h with
  | nil => rfl
  | @cons st r rs first more hfirst hrest ih =>
      have hloud : first.length = 1 → r.cmd ≠ .setq →
          (first ++ more).length = (answeredOf (r :: rs)).length := by
        intro hlen hcmd
        simp only [answeredOf, List.filter_cons, ne_eq, hcmd,
          not_false_eq_true, decide_true, if_true, List.length_cons,
          List.length_append, hlen, ih]
        omega
      cases hfirst with
      | quiet hcmd => simpa [answeredOf, hcmd] using ih
      | stored hcmd => exact hloud rfl (by rw [hcmd]; nofun)
      | hit hcmd => exact hloud rfl (by rw [hcmd]; nofun)
      | miss hcmd => exact hloud rfl (by rw [hcmd]; nofun)

/-! ## Loading -/

namespace MemcacheLoad

variable {R C : ℕ+} {cfg : Config}

/-- The start of all sets is a number of sets. -/
theorem eq_sets_of_prefix {n : Nat} {rs : List MemcPacket}
    (h : rs <+: sets cfg n) : rs.length ≤ n ∧ rs = sets cfg rs.length := by
  have hlen : (sets cfg n).length = n := by simp [sets]
  have hle := h.length_le
  rw [hlen] at hle
  refine ⟨hle, ?_⟩
  calc rs = (sets cfg n).take rs.length := List.prefix_iff_eq_take.mp h
    _ = sets cfg rs.length := by
      rw [sets, ← List.map_take, List.take_range, Nat.min_eq_left hle, sets]

theorem cmd_setAt (i : Nat) :
    (setAt cfg i).cmd =
      if Closes cfg.notify.toNat cfg.toload.toNat i then .set else .setq := rfl

/-- The loud sets are answered. -/
theorem length_answeredOf_sets (n : Nat) :
    (answeredOf (sets cfg n)).length = louds cfg n := by
  induction n with
  | zero => rfl
  | succ n ih =>
      have hsplit : answeredOf (sets cfg (n + 1)) =
          answeredOf (sets cfg n) ++ answeredOf [setAt cfg n] := by
        rw [sets_succ, answeredOf, List.filter_append]
        rfl
      rw [hsplit, List.length_append, ih, louds, louds, closed]
      by_cases hcloses : Closes cfg.notify.toNat cfg.toload.toNat n
      · simp [answeredOf, cmd_setAt, hcloses]
      · simp [answeredOf, cmd_setAt, hcloses]

/-- Sets are answered without a body. -/
theorem wire_bare {st : Store} {rs : List MemcPacket} {resps : List Response}
    (h : Serves st rs resps) (hsets : ∀ r ∈ rs, r.cmd ≠ .get) :
    (wire resps).length = MemcHeader.size * resps.length := by
  have hbare : ∀ resp ∈ resps, resp.body = [] := by
    intro resp hmem
    obtain ⟨k, hk⟩ := List.mem_iff_getElem?.mp hmem
    obtain ⟨front, r, back, rfl, -, hanswers⟩ := h.response hk
    have hcmd := hsets r (by simp)
    cases hanswers with
    | stored _ _ hbody => exact hbody
    | hit hget => exact absurd hget hcmd
    | miss hget => exact absurd hget hcmd
  clear h
  induction resps with
  | nil => rfl
  | cons resp resps ih =>
      have hhead := hbare resp List.mem_cons_self
      have hone : wire (resp :: resps) =
          resp.header ++ resp.body ++ wire resps := rfl
      rw [hone, hhead, List.append_nil, List.length_append,
        resp.length_header, ih fun r hr => hbare r (List.mem_cons_of_mem _ hr),
        List.length_cons, Nat.mul_succ, Nat.add_comm]

/-- Responses without bodies follow one another. -/
theorem frameAt_bare {H : Nat} {rets : List Nat} (h : ∀ ret ∈ rets, ret = 0)
    {k : Nat} (hk : k ≤ rets.length) : frameAt H rets k = H * k := by
  induction k with
  | zero => rfl
  | succ k ih =>
      have hlt : k < rets.length := hk
      rw [frameAt_succ (List.getElem?_eq_getElem hlt), ih (Nat.le_of_lt hlt),
        h _ (List.getElem_mem hlt), Nat.mul_succ, Nat.add_zero]

/-- The responses that were handled had arrived. -/
theorem answered_le_received {addr loud : Nat} {l : Loader}
    {s : Sock Loader R C} (h : Loading cfg C addr l loud s.view) :
    MemcHeader.size * answered s ≤ (received s.trace).length := by
  rcases Nat.eq_zero_or_pos (answered s) with hzero | hpos
  · rw [hzero]
    exact Nat.zero_le _
  · have hlt : answered s - 1 < (delivered s.trace).length :=
      Nat.sub_lt hpos Nat.one_pos
    obtain ⟨ret, -, hin, -⟩ := delivered_of_framed s.trace h.framed.framed
      (List.getElem?_eq_getElem hlt)
    have hframe : frameAt MemcHeader.size (returns s.trace) (answered s - 1) =
        MemcHeader.size * (answered s - 1) :=
      frameAt_bare h.returned (by
        rw [length_returns]
        exact Nat.le_of_lt hlt)
    have hsplit : answered s = answered s - 1 + 1 := by omega
    rw [hframe] at hin
    rw [hsplit, Nat.mul_succ]
    exact hin

/-- Before the last set, there are fewer loud ones. -/
theorem louds_lt {m : Nat} (hm : m < cfg.toload.toNat) :
    louds cfg m < louds cfg cfg.toload.toNat := by
  have hmono : ∀ n, m ≤ n → louds cfg m ≤ louds cfg n := by
    intro n hn
    induction n, hn using Nat.le_induction with
    | base => exact Nat.le_refl _
    | succ n _ ih =>
        apply ih.trans
        rw [louds, louds, closed]
        exact Nat.le_add_right _ _
  obtain ⟨n, hn⟩ : ∃ n, cfg.toload.toNat = n + 1 :=
    ⟨cfg.toload.toNat - 1, by omega⟩
  have hlast : Closes cfg.notify.toNat cfg.toload.toNat n := .inr hn.symm
  have hbelow := hmono n (by omega)
  have hnext : louds cfg (n + 1) = louds cfg n + 1 := by
    rw [louds, louds, closed, if_pos hlast]
  rw [hn, hnext]
  exact Nat.lt_succ_of_le hbelow

/-- The store has the value for every key of the loader, without flags. -/
def Loaded (cfg : Config) (st : Store) : Prop :=
  ∀ i, i < cfg.toload.toNat →
    st (nextKey cfg (cfg.startid + UInt64.ofNat i)) =
      some (List.replicate 4 0, nextVal cfg)

/-- The sets store the value, also where two of them have the same key. -/
theorem loaded_of_sets (cfg : Config) (st : Store) :
    Loaded cfg (st.applyAll (sets cfg cfg.toload.toNat)) := by
  intro i hi
  have hmem : setAt cfg i ∈ sets cfg cfg.toload.toNat :=
    List.mem_map.mpr ⟨i, List.mem_range.mpr hi, rfl⟩
  have hloud : ∀ j, (setAt cfg j).cmd ≠ .get := by
    intro j
    rw [cmd_setAt]
    split <;> nofun
  refine Store.applyAll_stored hmem (hloud i) fun r hr _ _ => ?_
  obtain ⟨j, -, rfl⟩ := List.mem_map.mp hr
  exact ⟨(by decide : Lasting memcExtrasSet), rfl⟩

/-- **When the loader is done, everything is stored.**  If the server answers
only what it has read, then at the end of `run` it has read every set, and
holds the value for every key. -/
theorem finished_stored (hbatch : cfg.batch ≠ 0)
    (hwindow : cfg.notifyWindow ≠ 0)
    (hgroups : cfg.notify.toNat * ((cfg.toload.toNat + cfg.notify.toNat - 1) /
      cfg.notify.toNat) < 2 ^ 64)
    (hframed : cfg.Framed)
    (hwhole : ∀ i, i < cfg.toload.toNat →
      WholeSet C (i * setSize cfg % C))
    {r : Running R C} (h : Reachable cfg r) (hdone : r.point = .finished)
    {st : Store} {resps : List Response}
    (hserves : Serves st (messages readRequest (accepted r.sock.trace)).1 resps)
    (hwire : received r.sock.trace <+: wire resps) :
    (messages readRequest (accepted r.sock.trace)).1 =
        sets cfg cfg.toload.toNat ∧
      Loaded cfg (st.applyAll
        (messages readRequest (accepted r.sock.trace)).1) := by
  have hnotify := notify_ne_zero hbatch hwindow
  rw [← closed_self (notify_pos hnotify)] at hgroups
  have hdelivering := h.delivering hnotify hwhole
  obtain ⟨hle, hrs⟩ :=
    eq_sets_of_prefix (hdelivering.accepted_sets hframed)
  have hfinal : louds cfg cfg.toload.toNat ≤ louds cfg
      (messages readRequest (accepted r.sock.trace)).1.length := by
    rcases h.runs hnotify with hruns | ⟨e, hpoint, -⟩
    · obtain ⟨addr, n, hprogress⟩ := hruns.progress
      have hanswered := ((hprogress.recv_le_iff hnotify hgroups).mp
        (hruns.finishes hdone)).2
      have harrived := answered_le_received hprogress.holds
      have hbare := wire_bare hserves fun r hr => by
        rw [hrs] at hr
        obtain ⟨j, -, rfl⟩ := List.mem_map.mp hr
        rw [cmd_setAt]
        split <;> nofun
      have hcount := hserves.length_eq
      rw [hrs, length_answeredOf_sets] at hcount
      have hall := harrived.trans hwire.length_le
      rw [hbare, hanswered, hcount] at hall
      exact Nat.le_of_mul_le_mul_left hall (by decide)
    · cases hdone.symm.trans hpoint
  have hread : (messages readRequest (accepted r.sock.trace)).1 =
      sets cfg cfg.toload.toNat := by
    rcases Nat.lt_or_eq_of_le hle with hless | heq
    · exact absurd hfinal (Nat.not_le.mpr (louds_lt hless))
    · rw [hrs, heq]
  refine ⟨hread, ?_⟩
  rw [hread]
  exact loaded_of_sets cfg st

/-- One key. -/
private def oneKey : Config := ⟨1, 1, 1, 1, 1, 1⟩

/-- The response to its set. -/
private def keyStored : Response where
  header := 0x81 :: List.replicate 23 0
  body := []
  length_header := by decide
  counts := by decide

/-- The connect finishes, the set is sent, and the response arrives. -/
private def oneAnswer : List IoEvent :=
  [⟨EPOLLOUT, .ok, [], [.accepted 34]⟩,
    ⟨EPOLLIN, .ok, [.data 0x81 (keyStored.header.drop 1)], []⟩]

theorem finished_stored_oneKey : ∃ r : Running 2 64, Reachable oneKey r ∧
    r.point = .finished ∧ Loaded oneKey (Store.applyAll (fun _ => none)
      (messages readRequest (accepted r.sock.trace)).1) := by
  have hsend := eq_ok_of_returned (r := turn oneKey (fun _ _ => 0) [] []
    (start oneKey 0 (fun _ => 0) (fun _ => 0) : Sock Loader 2 64))
    (by decide +kernel)
  have hwake := eq_ok_of_returned (r := runAll IoEvent.call oneAnswer
    (after (turn oneKey (fun _ _ => 0) [] []
      (start oneKey 0 (fun _ => 0) (fun _ => 0) : Sock Loader 2 64))))
    (by decide +kernel)
  have hreach : Reachable oneKey ⟨.finished, _⟩ :=
    ⟨0, fun _ => 0, fun _ => 0, .head (.send _ _ _ (by decide) hsend)
      (.head (.full (by decide +kernel)) (.head (.block (by decide +kernel))
        (.head (.wake _ hwake) (.head (.full (by decide +kernel))
          (.single (.finish (by decide +kernel)))))))⟩
  refine ⟨_, hreach, rfl, ?_⟩
  exact (finished_stored (by decide) (by decide) (by decide)
    ⟨by decide, by decide⟩ (fun i hi => wholeSet_of hi (.inl (by decide)))
    hreach rfl
    (show Serves _ _ [keyStored] by
      rw [show (messages readRequest _).1 = [setAt oneKey 0] by
        decide +kernel]
      exact .cons (.stored rfl rfl rfl) .nil)
    ⟨[], by decide +kernel⟩).2

end MemcacheLoad

/-! ## Asking for what was loaded -/

namespace Memcache

variable {K : Type} {R C : ℕ+} {cfg : Config} {clk : Nat → Nat}
  {lcfg : MemcacheLoad.Config} {st : Store} {seqid : UInt64}

/-- The loader has stored the records the generator asks for. -/
structure Provides (lcfg : MemcacheLoad.Config) (cfg : Config) : Prop where
  fits : cfg.Fits
  keysize : lcfg.keysize = cfg.keysize
  valsize : lcfg.valsize = cfg.valsize
  startid : lcfg.startid = 1
  records : cfg.records ≤ lcfg.toload.toNat

/-- **Every request is for a record that was loaded.** -/
theorem Provides.keyFor_loaded (h : Provides lcfg cfg)
    (hst : MemcacheLoad.Loaded lcfg st) (id : UInt64) :
    st (keyFor cfg id) =
      some (List.replicate 4 0, MemcacheLoad.nextVal lcfg) := by
  have hslot := h.fits.slot_lt id
  have hrecords := h.records
  have hkey : MemcacheLoad.nextKey lcfg
      (lcfg.startid + UInt64.ofNat (id.toNat % cfg.records)) =
        keyFor cfg id := by
    rw [MemcacheLoad.nextKey, h.keysize, h.startid, UInt64.add_comm,
      ← UInt64.ofNat_one, ← UInt64.ofNat_add, h.fits.recordId_eq,
      h.fits.keyFor_eq]
  rw [← hkey]
  exact hst _ (by omega)

/-- The requests of the generator are all answered. -/
theorem cmds_ne_setq (calls : List (Call K)) :
    ∀ op ∈ calls.flatMap Call.cmds, op ≠ .setq := by
  intro op hop
  obtain ⟨c, -, hc⟩ := List.mem_flatMap.mp hop
  cases c with
  | send low measure cb stack wout rin =>
      rw [List.mem_singleton.mp hc, chooseCmd]
      split <;> nofun
  | runIo events check rin wout => cases hc

section Served

variable {cmds : List MemcCmd} {rs ms : List MemcPacket}
  {resps : List Response}

/-- An item with the sizes of a record. -/
def Sized (cfg : Config) (item : Item) : Prop :=
  item.1.length = 4 ∧ item.2.length = cfg.valsize

/-- What the sets of the generator store has the size of a record. -/
theorem RequestOf.sized {op : MemcCmd} {id : UInt64} {r : MemcPacket}
    (h : RequestOf cfg op id r) (hset : op ≠ .get) :
    Lasting r.extras ∧ Sized cfg (r.extras.take 4, r.value) := by
  rw [h.extras]
  refine ⟨?_, ?_, ?_⟩
  · cases op with
    | get => exact absurd rfl hset
    | set => exact (by decide : Lasting memcExtrasSet)
    | setq => exact (by decide : Lasting memcExtrasSet)
  · cases op with
    | get => exact absurd rfl hset
    | set => rfl
    | setq => rfl
  · have hvalue := h.value
    cases op with
    | get => exact absurd rfl hset
    | set => exact hvalue
    | setq => exact hvalue

/-- **The `k`-th response** is without error, and has the value of a record
exactly when the `k`-th request is a get. -/
theorem response_of_served (hprovides : Provides lcfg cfg)
    (hst : MemcacheLoad.Loaded lcfg st)
    (hcmds : ∀ op ∈ cmds, op ≠ .setq) (hreqs : Requests cfg seqid cmds rs)
    (hms : ms <+: rs) (hserves : Serves st ms resps) {k : Nat}
    {resp : Response} (hk : resps[k]? = some resp) :
    ∃ op, cmds[k]? = some op ∧ resp.status = statusOk ∧
      resp.body.length = if op = .get then 4 + cfg.valsize else 0 := by
  have hof : ∀ {i : Nat} {r : MemcPacket}, ms[i]? = some r →
      ∃ op, cmds[i]? = some op ∧
        RequestOf cfg op (seqid + UInt64.ofNat i) r := by
    intro i r hi
    obtain ⟨more, rfl⟩ := hms
    refine hreqs i r ?_
    rw [List.getElem?_append_left (List.getElem?_eq_some_iff.mp hi).1]
    exact hi
  have hall : answeredOf ms = ms := by
    refine List.filter_eq_self.mpr fun r hr => ?_
    obtain ⟨i, hi⟩ := List.mem_iff_getElem?.mp hr
    obtain ⟨op, hop, hr⟩ := hof hi
    rw [hr.cmd]
    exact decide_eq_true (hcmds op (List.mem_of_getElem? hop))
  obtain ⟨front, r, back, hsplit, hget, hanswers⟩ := hserves.response hk
  rw [hall] at hget
  obtain ⟨op, hop, hr⟩ := hof hget
  refine ⟨op, hop, ?_⟩
  have hstored : ∃ item, st.applyAll front r.key = some item ∧
      Sized cfg item := by
    apply Store.applyAll_holds
    · refine ⟨_, by rw [hr.key]; exact hprovides.keyFor_loaded hst _, ?_, ?_⟩
      · rfl
      · exact List.length_replicate.trans hprovides.valsize
    · intro r' hr' hcmd _
      have hmem : r' ∈ ms := by
        rw [hsplit]
        exact List.mem_append_left _ hr'
      obtain ⟨i, hi⟩ := List.mem_iff_getElem?.mp hmem
      obtain ⟨op', -, hof'⟩ := hof hi
      exact hof'.sized (by rw [← hof'.cmd]; exact hcmd)
  cases hanswers with
  | stored hcmd hstatus hbody =>
      rw [hr.cmd] at hcmd
      rw [hcmd, hbody]
      exact ⟨hstatus, rfl⟩
  | hit hcmd hitem hstatus hbody =>
      obtain ⟨item, hsome, hflags, hvalue⟩ := hstored
      rw [hr.cmd] at hcmd
      cases hitem.symm.trans hsome
      rw [hcmd, hbody, List.length_append, hflags, hvalue]
      exact ⟨hstatus, rfl⟩
  | miss hcmd hnone =>
      obtain ⟨item, hsome, -⟩ := hstored
      cases hnone.symm.trans hsome

end Served

/-- **Every get finds a value.**  Against a server with the records loaded,
each response that the generator handles is the one to its request: a get found
a value of the configured size and skips exactly its bytes, a set was
stored. -/
theorem gets_hit (hprovides : Provides lcfg cfg) (hshort : cfg.Short)
    (hst : MemcacheLoad.Loaded lcfg st) (addr : Nat)
    (rmem wmem : Nat → UInt8) (seqid : UInt64) (client : K)
    (calls : List (Call K)) (hwhole : Whole C cfg (calls.flatMap Call.cmds))
    {r : EStateM.Result Exn (Conn MemcCmd (State K) R C) Unit}
    (hrun : runAll (Call.call cfg clk) calls
      (start addr rmem wmem seqid client) = r)
    {resps : List Response}
    (hserves : Serves st (messages readRequest (accepted (after r).trace)).1
      resps)
    (hwire : received (after r).trace <+: wire resps) {k : Nat} {e : Event}
    (hk : (delivered (after r).trace)[k]? = some e) :
    ∃ op segs resp, (calls.flatMap Call.cmds)[k]? = some op ∧
      resps[k]? = some resp ∧ resp.status = statusOk ∧
      Buffer.joinSegs segs = resp.header ∧
      e = .rxcb k .hdr segs 0 (if op = .get then 4 + cfg.valsize else 0) := by
  obtain ⟨rs, hreqs, hstart, -⟩ := run_delivers hprovides.fits.records_ne addr
    rmem wmem seqid client calls hwhole hrun
  have hms := messages_of_prefix readRequest_lawful (hreqs.encodes hshort)
    hstart
  have hresponse := fun {k : Nat} {resp} (h : resps[k]? = some resp) =>
    response_of_served hprovides hst (cmds_ne_setq calls) hreqs hms hserves h
  have haligned := (run_aligned cfg calls rmem wmem seqid client hrun
    hwire).1.mpr fun k resp _ hset hresp => by
      obtain ⟨op, hop, -, hbody⟩ := hresponse hresp
      cases hset.symm.trans hop
      exact List.length_eq_zero_iff.mp hbody
  obtain ⟨resp, segs, hresp, he, hheader⟩ := haligned k e hk
  obtain ⟨op, hop, hstatus, hbody⟩ := hresponse hresp
  rw [hbody] at he
  exact ⟨op, segs, resp, hop, hresp, hstatus, hheader, he⟩

/-- A response to a get: flags, and a value of one byte. -/
private def valueA : Response where
  header := [0x81, 0, 0, 0, 4, 0, 0, 0, 0, 0, 0, 5] ++ List.replicate 12 0
  body := [0, 0, 0, 0, 97]
  length_header := by decide
  counts := by decide

/-- A get, the event that sends it, and the response. -/
private def getA : List (Call Unit) :=
  [.send false true (fun _ _ _ _ _ k => k) (fun _ _ => 0) [] [],
    .runIo EPOLLOUT .ok [] [.accepted 25],
    .runIo EPOLLIN .ok [.data 0x81 (valueA.header.drop 1 ++ valueA.body)] []]

/-- What happens on a fresh connection. -/
private def getARun : EStateM.Result Exn
    (Conn MemcCmd (State Unit) maxOutstandingReqs charbufSize) Unit :=
  runAll (Call.call ⟨1, 1, 1⟩ id) getA
    (start 0 (fun _ => 0) (fun _ => 0) 0 ())

theorem gets_hit_one : ∃ e segs, (delivered (after getARun).trace)[0]? =
    some e ∧ Buffer.joinSegs segs = valueA.header ∧
    e = .rxcb 0 .hdr segs 0 5 := by
  have hstored := MemcacheLoad.loaded_of_sets MemcacheLoad.oneKey
    fun _ => none
  have hprovides : Provides MemcacheLoad.oneKey ⟨1, 1, 1⟩ :=
    ⟨⟨by decide, by decide⟩, rfl, rfl, rfl, by decide⟩
  have hshort : Config.Short ⟨1, 1, 1⟩ := show 8 + 1 + 1 < 2 ^ 32 by decide
  have hread : (messages readRequest (accepted (after getARun).trace)).1 =
      [⟨.get, [], [49], []⟩] := by decide +kernel
  have hanswers : Serves (Store.applyAll (fun _ => none)
      (MemcacheLoad.sets MemcacheLoad.oneKey 1))
      (messages readRequest (accepted (after getARun).trace)).1 [valueA] := by
    rw [hread]
    exact .cons (.hit rfl (hstored 0 (by decide)) rfl rfl) .nil
  have hsome : ∃ e, (delivered (after getARun).trace)[0]? = some e :=
    ⟨_, List.getElem?_eq_getElem (by decide +kernel)⟩
  obtain ⟨e, he⟩ := hsome
  obtain ⟨op, segs, resp, hop, hresp, -, hheader, rfl⟩ := gets_hit hprovides
    hshort hstored 0 (fun _ => 0) (fun _ => 0) 0 () getA
    (whole_of_le (by decide +kernel)) (r := getARun) rfl hanswers
    ⟨[], by decide +kernel⟩ he
  cases hop
  cases hresp
  exact ⟨_, segs, he, hheader, rfl⟩

end Memcache

end Mutated.Ports
