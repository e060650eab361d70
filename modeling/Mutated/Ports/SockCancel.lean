import Mutated.Ports.SockGiven

/-!
# The operations that the destructor cancels

The destructor cancels the operations that are still pending: it calls both
callbacks of each with `- EIO`.  Whether the header callback was called before
is only recorded in `hdrlen`, which the receive path sets to zero, and the
destructor does not look at it.

So what the destructor adds is one call too many for an operation past its
header, and one too few when the ring of operations is full, because a
range-for over a full ring visits nothing.
-/

namespace Mutated.Ports

open Mutated.Verified.Exec

variable {W : Type} {R C : ℕ+}

/-! ## Destruction -/

/-- The callback of an operation for `phase`. -/
def IORx.cbAt (op : IORx W) : Phase → Option (RxCB W)
  | .hdr => op.hdrcb
  | .body => op.bodycb

/-- How often cancelling `ops` calls the callback for `phase` of the `k`-th
operation. -/
def cancelling (ops : List (IORx W)) (k : Nat) (phase : Phase) : Nat :=
  ops.countP fun op => op.serial = k ∧ (op.cbAt phase).isSome

theorem cancelling_cons (op : IORx W) (ops : List (IORx W)) (k : Nat)
    (phase : Phase) :
    cancelling (op :: ops) k phase = cancelling ops k phase +
      if op.serial = k ∧ (op.cbAt phase).isSome then 1 else 0 := by
  simp [cancelling, List.countP_cons]

/-- Operations with consecutive serial numbers are cancelled once each. -/
theorem cancelling_eq {ops : List (IORx W)} : ∀ {d : Nat},
    (∀ (j : Nat) (op : IORx W), ops[j]? = some op → op.serial = d + j) →
    ∀ (k : Nat) (phase : Phase), cancelling ops k phase =
      if d ≤ k ∧ ∃ op, ops[k - d]? = some op ∧ (op.cbAt phase).isSome
        then 1 else 0 := by
  induction ops with
  | nil =>
      intro d _ k phase
      rw [if_neg (by rintro ⟨-, op, hop, -⟩; cases hop)]
      rfl
  | cons op ops ih =>
      intro d h k phase
      have hserial : op.serial = d := h 0 op rfl
      have hrest := ih (d := d + 1) (fun j op' hop => by
        have := h (j + 1) op' hop
        omega) k phase
      rw [cancelling_cons, hrest, hserial]
      by_cases hk : d = k
      · subst hk
        simp
      · by_cases hle : d ≤ k
        · obtain ⟨j, rfl⟩ := Nat.exists_eq_add_of_le hle
          obtain ⟨i, rfl⟩ := Nat.exists_eq_add_of_lt (show 0 < j by omega)
          have hsub : d + (0 + i + 1) - d = i + 1 := by omega
          have hsub' : d + (0 + i + 1) - (d + 1) = i := by omega
          have hother : ¬ (d = d + (0 + i + 1) ∧ (op.cbAt phase).isSome) :=
            fun h => hk h.1
          rw [hsub, hsub', List.getElem?_cons_succ, if_neg hother,
            Nat.add_zero]
          exact if_congr (and_congr_left fun _ => by omega) rfl rfl
        · rw [if_neg (fun h => hle (by omega)), if_neg (fun h => hk h.1),
            if_neg (fun h => hle h.1)]

namespace Sock

private theorem cancelRx_ok {op : IORx W} {phase : Phase}
    {cb : Option (RxCB W)} {s s' : Sock W R C}
    (h : cancelRx op phase cb s = .ok () s') :
    s'.rxCbs = s.rxCbs ∧ (∀ k ph, timesCalled s'.trace k ph =
      timesCalled s.trace k ph +
        if op.serial = k ∧ phase = ph ∧ cb.isSome then 1 else 0) ∧
    ∀ issued : List (IORx W), (∀ e ∈ s.trace, e.Proper issued) →
      ∀ e ∈ s'.trace, e.Proper issued := by
  cases cb with
  | none =>
      cases h
      exact ⟨rfl, fun k ph => by simp, fun _ hproper => hproper⟩
  | some cb =>
      have h : (onWorld (cb s.addr op.cbdata ([], none) (- EIO)) >>=
          fun ret => emit (.rxcb op.serial phase ([], none) (- EIO) ret) :
          EStateM Exn (Sock W R C) Unit) s = .ok () s' := h
      obtain ⟨ret, t, hcall, hemit⟩ := bind_eq_ok.mp h
      have hkeeps : Keeps (fun s : Sock W R C => (s.rxCbs, s.trace))
          (onWorld (cb s.addr op.cbdata ([], none) (- EIO))) :=
        keeps_zoom (by exact fun _ _ => rfl) _
      have hsame := hkeeps.of_ok hcall
      simp only [Prod.mk.injEq] at hsame
      cases hemit
      refine ⟨hsame.1, fun k ph => ?_, fun issued hproper e he => ?_⟩
      · rw [timesCalled_append, timesCalled_rxcb, hsame.2]
        simp
      · rcases List.mem_append.mp he with hold | hnew
        · rw [hsame.2] at hold
          exact hproper e hold
        · rw [List.mem_singleton.mp hnew]
          cases phase with
          | hdr => exact .inr ⟨rfl, rfl⟩
          | body => trivial

private theorem cancelRxs_ok (ps : List Nat) : ∀ {s s' : Sock W R C},
    cancelRxs ps s = .ok () s' → (∀ k ph, timesCalled s'.trace k ph =
      timesCalled s.trace k ph + cancelling (ps.map s.rxCbs.buf) k ph) ∧
    ∀ issued : List (IORx W), (∀ e ∈ s.trace, e.Proper issued) →
      ∀ e ∈ s'.trace, e.Proper issued := by
  induction ps with
  | nil =>
      intro s s' h
      cases h
      exact ⟨fun _ _ => rfl, fun _ hproper => hproper⟩
  | cons p ps ih =>
      intro s s' h
      have h : (cancelRx (s.rxCbs.buf p) .hdr (s.rxCbs.buf p).hdrcb >>=
          fun _ => cancelRx (s.rxCbs.buf p) .body (s.rxCbs.buf p).bodycb >>=
            fun _ => cancelRxs ps : EStateM Exn (Sock W R C) Unit) s =
          .ok () s' := h
      obtain ⟨⟨⟩, t, hhdr, h⟩ := bind_eq_ok.mp h
      obtain ⟨⟨⟩, u, hbody, h⟩ := bind_eq_ok.mp h
      obtain ⟨hops, hfired, hproper⟩ := cancelRx_ok hhdr
      obtain ⟨hops', hfired', hproper'⟩ := cancelRx_ok hbody
      obtain ⟨hrest, hproper''⟩ := ih h
      refine ⟨fun k ph => ?_, fun issued hs =>
        hproper'' issued (hproper' issued (hproper issued hs))⟩
      rw [hrest, hfired', hfired, hops', hops, List.map_cons]
      rw [cancelling_cons]
      cases ph with
      | hdr =>
          simp only [IORx.cbAt, reduceCtorEq, false_and, and_false, true_and,
            if_false, Nat.add_zero]
          exact (Nat.add_right_comm _ _ _).trans (Nat.add_assoc _ _ _)
      | body =>
          simp only [IORx.cbAt, reduceCtorEq, false_and, and_false, true_and,
            if_false, Nat.add_zero]
          exact (Nat.add_right_comm _ _ _).trans (Nat.add_assoc _ _ _)

/-- A point without a callback is passed over. -/
theorem cancelTxs_none {s : Sock W R C} {p : Nat}
    (hcb : (s.txCbs.buf p).cb = none) (ps : List Nat) :
    cancelTxs (p :: ps) s = cancelTxs ps s := by
  rw [cancelTxs]
  refine (bind_of_ok rfl).trans ?_
  dsimp only
  rw [hcb]

/-- A point with a callback calls it. -/
theorem cancelTxs_some {s : Sock W R C} {p : Nat} {cb : TxCB W}
    (hcb : (s.txCbs.buf p).cb = some cb) (ps : List Nat) :
    cancelTxs (p :: ps) s =
      (onWorld (cb s.addr (s.txCbs.buf p).cbdata (- EIO)) >>= fun _ =>
        emit (.txcb (s.txCbs.buf p).serial (- EIO)) >>= fun _ =>
          cancelTxs ps : EStateM Exn (Sock W R C) Unit) s := by
  rw [cancelTxs]
  refine (bind_of_ok rfl).trans ?_
  dsimp only
  rw [hcb]

private theorem cancelTxs_ok (ps : List Nat) : ∀ {s s' : Sock W R C},
    cancelTxs ps s = .ok () s' → (∀ k ph, timesCalled s'.trace k ph =
      timesCalled s.trace k ph) ∧
    ∀ issued : List (IORx W), (∀ e ∈ s.trace, e.Proper issued) →
      ∀ e ∈ s'.trace, e.Proper issued := by
  induction ps with
  | nil =>
      intro s s' h
      cases h
      exact ⟨fun _ _ => rfl, fun _ hproper => hproper⟩
  | cons p ps ih =>
      intro s s' h
      cases hcb : (s.txCbs.buf p).cb with
      | none =>
          rw [cancelTxs_none hcb] at h
          exact ih h
      | some cb =>
          rw [cancelTxs_some hcb] at h
          obtain ⟨⟨⟩, t, hcall, h⟩ := bind_eq_ok.mp h
          obtain ⟨⟨⟩, u, hemit, h⟩ := bind_eq_ok.mp h
          have hkeeps : Keeps (fun s : Sock W R C => s.trace)
              (onWorld (cb s.addr (s.txCbs.buf p).cbdata (- EIO))) :=
            keeps_zoom (by exact fun _ _ => rfl) _
          have hsame := hkeeps.of_ok hcall
          cases hemit
          obtain ⟨hrest, hproper⟩ := ih h
          constructor
          · intro k ph
            rw [hrest, ← hsame]
            simp [timesCalled]
          · intro issued hs
            refine hproper issued fun e he => ?_
            rcases List.mem_append.mp he with hold | hnew
            · have hold : e ∈ t.trace := hold
              rw [hsame] at hold
              exact hs e hold
            · rw [List.mem_singleton.mp hnew]
              trivial

/-- What the destructor does once everything is cancelled. -/
def clearAll : EStateM Exn (Sock W R C) Unit := do
  modify fun s =>
    { s with connected := false, rxRdy := false, txRdy := false }
  onRxCbs Buffer.clear
  onTxCbs Buffer.clear
  modify fun s => { s with txOut := 0 }

theorem destroy_eq (s : Sock W R C) :
    destroy s = (cancelRxs s.rxCbs.visited >>= fun _ =>
      cancelTxs s.txCbs.visited >>= fun _ => clearAll :
      EStateM Exn (Sock W R C) Unit) s := rfl

theorem clearAll_keeps :
    Keeps (fun s : Sock W R C => s.trace) (clearAll (W := W)) := by
  refine keeps_bind (fun _ => rfl) fun _ => ?_
  refine keeps_bind (keeps_zoom (by exact fun _ _ => rfl) _) fun _ => ?_
  exact keeps_bind (keeps_zoom (by exact fun _ _ => rfl) _) fun _ _ => rfl

/-- The end of the destructor cannot throw. -/
theorem clearAll_returns {s : Sock W R C} (hrx : s.rxCbs.WF)
    (htx : s.txCbs.WF) : ∃ s', clearAll s = .ok () s' := by
  have hops : onRxCbs Buffer.clear
      { s with connected := false, rxRdy := false, txRdy := false } = .ok ()
      { s with
        connected := false, rxRdy := false, txRdy := false
        rxCbs := s.rxCbs.dropped s.rxCbs.used } :=
    zoom_of_ok (Buffer.clear_ok hrx)
  have hpts : onTxCbs Buffer.clear
      { s with
        connected := false, rxRdy := false, txRdy := false
        rxCbs := s.rxCbs.dropped s.rxCbs.used } = .ok ()
      { s with
        connected := false, rxRdy := false, txRdy := false
        rxCbs := s.rxCbs.dropped s.rxCbs.used
        txCbs := s.txCbs.dropped s.txCbs.used } :=
    zoom_of_ok (Buffer.clear_ok htx)
  refine ⟨{ s with
    connected := false, rxRdy := false, txRdy := false
    rxCbs := s.rxCbs.dropped s.rxCbs.used
    txCbs := s.txCbs.dropped s.txCbs.used
    txOut := 0 }, (bind_of_ok rfl).trans ?_⟩
  rw [bind_of_ok hops, bind_of_ok hpts]
  rfl

/-- **The destructor** cancels what a range-for over the operations visits. -/
theorem destroy_ok {s s' : Sock W R C} (h : s.WF)
    (hrun : destroy s = .ok () s') :
    (∀ (k : Nat) (phase : Phase),
      timesCalled s'.trace k phase = timesCalled s.trace k phase +
        if s.rxCbs.items = R then 0
        else cancelling s.rxCbs.toList k phase) ∧
    ∀ issued : List (IORx W), (∀ e ∈ s.trace, e.Proper issued) →
      ∀ e ∈ s'.trace, e.Proper issued := by
  rw [destroy_eq] at hrun
  obtain ⟨⟨⟩, t, hrx, hrun⟩ := bind_eq_ok.mp hrun
  obtain ⟨⟨⟩, u, htx, hrun⟩ := bind_eq_ok.mp hrun
  obtain ⟨hcount, hproper⟩ := cancelRxs_ok _ hrx
  obtain ⟨hsame, hproper'⟩ := cancelTxs_ok _ htx
  rw [clearAll_keeps.of_ok hrun]
  refine ⟨fun k phase => ?_, fun issued hs =>
    hproper' issued (hproper issued hs)⟩
  rw [hsame, hcount, Buffer.visited_eq h.rxCbs]
  by_cases hfull : s.rxCbs.used = R
  · rw [if_pos hfull, if_pos (show s.rxCbs.items = R from hfull)]
    rfl
  · rw [if_neg hfull, if_neg (show ¬ s.rxCbs.items = R from hfull),
      Buffer.map_slots]

end Sock

/-! ## The main result -/

section Destroyed

variable {issued : List (IORx W)} {addr : Nat} {s s' : Sock W R C}

/-- Every operation called its header callback once, with its header or with
`- EIO`, and its body callback at most once. -/
structure ToldAll (issued : List (IORx W)) (t : List Event) : Prop where
  told : ∀ (k : Nat) (orig : IORx W), issued[k]? = some orig → Told t k orig
  proper : ∀ e ∈ t, e.Proper issued

/-- Of the pending operations with a header to report, those that a range-for
visits have not reported it, and the others have. -/
def Sock.Cancellable (issued : List (IORx W)) (s : Sock W R C) : Prop :=
  ∀ op ∈ s.rxCbs.toList, ∀ orig ∈ issued[op.serial]?, orig.hdrlen ≠ 0 →
    orig.hdrcb ≠ none → (0 < op.hdrlen ↔ s.rxCbs.items < R)

/-- The pending operations are the last ones that were issued. -/
private theorem serial_pending (h : Counted issued s.view) (i : Nat)
    (op : IORx W) (hop : s.rxCbs.toList[i]? = some op) :
    op.serial = issued.length - s.rxCbs.toList.length + i := by
  obtain ⟨_, _, hwaiting⟩ := h.waiting i op hop
  exact hwaiting.serial

/-- What the destructor adds for the `j`-th pending operation. -/
private theorem cancelling_pending (h : Counted issued s.view) {j : Nat}
    {op : IORx W} (hop : s.rxCbs.toList[j]? = some op) (phase : Phase) :
    cancelling s.rxCbs.toList op.serial phase =
      if (op.cbAt phase).isSome then 1 else 0 := by
  have hj := serial_pending h j op hop
  rw [cancelling_eq (serial_pending h), hj, Nat.add_sub_cancel_left]
  refine if_congr ⟨?_, fun hsome => ⟨Nat.le_add_right _ _, op, hop, hsome⟩⟩
    rfl rfl
  rintro ⟨-, op', hop', hsome⟩
  cases hop.symm.trans hop'
  exact hsome

/-- The destructor does not call the callbacks of operations that are gone. -/
private theorem cancelling_gone (h : Counted issued s.view) {k : Nat}
    (hk : k < issued.length - s.rxCbs.toList.length) (phase : Phase) :
    cancelling s.rxCbs.toList k phase = 0 := by
  rw [cancelling_eq (serial_pending h)]
  exact if_neg fun hle => by omega

/-- A pending operation is told what it was told before, and what it is told
now. -/
private theorem Tallied.pending_told_iff (h : Tallied addr issued s)
    (hrun : Sock.destroy s = .ok () s') {op orig : IORx W}
    (hmem : op ∈ s.rxCbs.toList) (horig : issued[op.serial]? = some orig) :
    Told s'.trace op.serial orig ↔ (orig.hdrlen ≠ 0 → orig.hdrcb ≠ none →
      (0 < op.hdrlen ↔ s.rxCbs.items < R)) := by
  obtain ⟨hadd, -⟩ := Sock.destroy_ok h.wf hrun
  have hfits : s.rxCbs.items ≤ R := h.wf.rxCbs.used_le
  obtain ⟨j, hop⟩ := List.mem_iff_getElem?.mp hmem
  obtain ⟨orig', horig', hwaiting⟩ := h.holds.waiting j op hop
  rw [← hwaiting.serial] at horig' hwaiting
  cases horig.symm.trans horig'
  have hcount := fun phase => cancelling_pending h.holds hop phase
  have hzero : timesCalled s.trace op.serial .body = 0 := h.unread op hmem
  have hbody : timesCalled s'.trace op.serial .body ≤ 1 := by
    rw [hadd, hcount, hzero]
    split
    · omega
    · split <;> omega
  have hhdr : orig.hdrlen ≠ 0 → orig.hdrcb ≠ none →
      (timesCalled s'.trace op.serial .hdr = 1 ↔
        (0 < op.hdrlen ↔ s.rxCbs.items < R)) := by
    intro hlen hcb
    have hsome : (op.cbAt .hdr).isSome := by
      rw [IORx.cbAt, hwaiting.hdrcb]
      exact Option.isSome_iff_ne_none.mpr hcb
    have hbefore : timesCalled s.trace op.serial .hdr =
        if 0 < op.hdrlen then 0 else 1 := hwaiting.hdr hlen hcb
    rw [hadd, hcount, hbefore, if_pos hsome]
    by_cases hpos : 0 < op.hdrlen
    · rw [if_pos hpos]
      by_cases hfull : s.rxCbs.items = R
      · rw [if_pos hfull]
        omega
      · rw [if_neg hfull]
        omega
    · rw [if_neg hpos]
      by_cases hfull : s.rxCbs.items = R
      · rw [if_pos hfull]
        omega
      · rw [if_neg hfull]
        omega
  constructor
  · exact fun htold hlen hcb => (hhdr hlen hcb).mp (htold.hdr hlen hcb)
  · exact fun hcan =>
      ⟨fun hlen hcb => (hhdr hlen hcb).mpr (hcan hlen hcb), hbody⟩

/-- **When destroying a socket tells every operation once.** -/
theorem Tallied.told_iff (h : Tallied addr issued s)
    (hrun : Sock.destroy s = .ok () s') :
    ToldAll issued s'.trace ↔ s.Cancellable issued := by
  obtain ⟨hadd, hproper⟩ := Sock.destroy_ok h.wf hrun
  constructor
  · intro hall op hmem orig horig
    exact (h.pending_told_iff hrun hmem horig).mp (hall.told _ _ horig)
  · intro hcan
    refine ⟨fun k orig horig => ?_, hproper issued h.given.proper⟩
    have hk := (List.getElem?_eq_some_iff.mp horig).1
    rcases h.holds.gone_or_pending hk with hgone | ⟨op, hmem, rfl⟩
    · have hsame : ∀ phase, timesCalled s'.trace k phase =
          timesCalled s.trace k phase := by
        intro phase
        rw [hadd, cancelling_gone h.holds hgone, ite_self, Nat.add_zero]
      have htold := h.holds.gone k orig horig hgone
      exact ⟨by rw [hsame]; exact htold.hdr, by rw [hsame]; exact htold.body⟩
    · exact (h.pending_told_iff hrun hmem horig).mpr (hcan op hmem orig horig)

end Destroyed

end Mutated.Ports
