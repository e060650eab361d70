import Mutated.Ports.Memcache

/-!
# Responses whose header is cut

`Memcache::recv_response` reads the length of the body out of the header.  A
header that lies across the end of the receive ring comes in two segments, and
is put together on the stack first.  The second segment is copied to
`&hdr + n`, which is `n` whole headers behind the header: a response to
anything but a set can only be read when its header comes in one segment.
-/

namespace Mutated.Ports

open Mutated.Verified.Circular
open Mutated.Verified.Endian
open Mutated.Verified.Exec

section Callback

variable {X K : Type} {R : ℕ+} {clk : Nat → Nat} {P : Proto X}
  {g g' : World X K R} {addr r : Nat} {data : Option Nat} {segs : Segs}

/-- **A response that is handled** is for this socket and the oldest
request. -/
theorem recvResponse_handled (hwf : g.requests.WF)
    (h : recvResponse clk P addr data segs 0 g = .ok r g') :
    g.sock = addr ∧ (Buffer.joinSegs segs).length = P.size ∧
      0 < g.requests.used ∧ data = some g.requests.head := by
  have hunfold : recvResponse clk P addr data segs 0 g =
      (if g.sock ≠ addr then throw (.runtimeError
        (P.name ++ "::recv_response: wrong socket in callback"))
      else if (Buffer.joinSegs segs).length ≠ P.size then
        throw (.runtimeError
          (P.name ++ "::recv_response: unexpected packet size"))
      else World.onRequests Buffer.dequeueOne >>= fun p =>
        if data ≠ some p then throw (.runtimeError
          (P.name ++ "::recv_response: wrong response-request packet match"))
        else do
          let t ← World.now clk
          let g ← get
          report P p (g.requests.buf p) segs t :
        EStateM Exn (World X K R) Nat) g := rfl
  rw [hunfold] at h
  by_cases hsock : g.sock ≠ addr
  · rw [if_pos hsock] at h
    cases h
  by_cases hsize : (Buffer.joinSegs segs).length ≠ P.size
  · rw [if_neg hsock, if_pos hsize] at h
    cases h
  rw [if_neg hsock, if_neg hsize] at h
  rcases Nat.eq_zero_or_pos g.requests.used with hempty | hsome
  · obtain ⟨e, hthrow⟩ := Buffer.dequeueOne_throws hempty
    cases (bind_of_error (zoom_of_error hthrow)).symm.trans h
  rw [World.onRequests, bind_of_ok (zoom_of_ok
    (Buffer.dequeueOne_ok hwf hsome))] at h
  by_cases hdata : data ≠ some g.requests.head
  · rw [if_pos hdata] at h
    cases h
  exact ⟨not_not.mp hsock, not_not.mp hsize, hsome, not_not.mp hdata⟩

end Callback

namespace Memcache

section Split

variable {K : Type} {R : ℕ+} {clk : Nat → Nat}
  {g g' : World MemcCmd (State K) R} {addr r n : Nat} {data : Option Nat}
  {hdr : List UInt8}

/-- A header of which `n` bytes lie before the end of the receive ring. -/
def splitHeader (n : Nat) (hdr : List UInt8) : Segs :=
  if n = hdr.length then (hdr, none) else (hdr.take n, some (hdr.drop n))

@[simp] theorem joinSegs_splitHeader (n : Nat) (hdr : List UInt8) :
    Buffer.joinSegs (splitHeader n hdr) = hdr := by
  unfold splitHeader Buffer.joinSegs
  split <;> simp

/-- A header in two segments can only be read where the body length is not
asked for. -/
theorem bodylen_two (op : MemcCmd) (hop : op ≠ .set) (seg1 seg2 : List UInt8) :
    bodylen op (seg1, some seg2) = .error copyPastHeader := if_neg hop

theorem bodylen_one (op : MemcCmd) (hop : op ≠ .set) (seg : List UInt8) :
    bodylen op (seg, none) = .ok (MemcHeader.bodylenAt seg) := if_neg hop

/-- **A header may not be cut**: the response it belongs to is read as from
one segment exactly when it comes in one. -/
theorem recvResponse_split_iff (hwf : g.requests.WF)
    (hop : (g.requests.buf g.requests.head).info ≠ .set)
    (hlen : hdr.length = MemcHeader.size)
    (hwhole : recvResponse clk addr data (hdr, none) 0 g = .ok r g') :
    r = ofBE ((hdr.drop 8).take 4) ∧
      ((∃ g'', recvResponse clk addr data (splitHeader n hdr) 0 g =
        .ok r g'') ↔ n = MemcHeader.size) := by
  obtain ⟨hsock, -, hsome, rfl⟩ := recvResponse_handled hwf hwhole
  have hsplit : (Buffer.joinSegs (splitHeader n hdr)).length = proto.size := by
    rw [joinSegs_splitHeader]
    exact hlen
  have hone := recvResponse_eq clk proto hsock hwf hsome (hdr, none)
    ((congrArg List.length (List.append_nil hdr)).trans hlen)
  have htwo := recvResponse_eq clk proto hsock hwf hsome _ hsplit
  rw [recvResponse, hone, report_ok_iff] at hwhole
  obtain ⟨hsent, hnow, waitUs, cb, hrespond, hcb, -⟩ := hwhole
  have hr : r = MemcHeader.bodylenAt hdr := by
    simp only [proto, bodylen_one _ hop] at hrespond
    cases hrespond
    rfl
  refine ⟨hr, ?_⟩
  simp only [recvResponse, htwo, report_ok_iff]
  by_cases hn : n = MemcHeader.size
  · have hsegs : splitHeader n hdr = (hdr, none) :=
      if_pos (hn.trans hlen.symm)
    rw [hsegs]
    exact iff_of_true ⟨_, hsent, hnow, waitUs, cb, hrespond, hcb, rfl⟩ hn
  · have hsegs : splitHeader n hdr = (hdr.take n, some (hdr.drop n)) :=
      if_neg (by rw [hlen]; exact hn)
    refine iff_of_false ?_ hn
    rintro ⟨-, -, -, waitUs', cb', hread, -⟩
    rw [hsegs] at hread
    simp only [proto, bodylen_two _ hop] at hread
    cases hread

end Split

/-- A generator with two gets outstanding, generated at 1 and sent at 2; the
first is in the last slot of the ring. -/
private def getsPending : World MemcCmd (State Unit) 2 where
  sock := 0
  requests := ⟨fun i => ⟨.get, i = 1, some fun _ _ _ _ _ k => k, 1, 2, 0⟩,
    1, 1, 2⟩
  ticks := 3
  client := ⟨0, ()⟩
  sent := [⟨1, .get, true⟩, ⟨0, .get, false⟩]
  done := []

/-- A header whose body has five bytes. -/
private def fiveHeader : List UInt8 :=
  [0x81, 0, 0, 0, 0, 0, 0, 0, 0, 0, 0, 5] ++ List.replicate 12 0

theorem recvResponse_split_iff_whole :
    5 = ofBE ((fiveHeader.drop 8).take 4) ∧
      ((∃ g'', recvResponse id 0 (some 1) (splitHeader 24 fiveHeader) 0
        getsPending = .ok 5 g'') ↔ 24 = MemcHeader.size) ∧
      ((∃ g'', recvResponse id 0 (some 1) (splitHeader 23 fiveHeader) 0
        getsPending = .ok 5 g'') ↔ 23 = MemcHeader.size) := by
  have hwf : getsPending.requests.WF := ⟨by decide, by decide, by decide⟩
  obtain ⟨hbody, hwhole⟩ := recvResponse_split_iff (n := 24) hwf (by decide)
    rfl (show recvResponse id 0 (some 1) (fiveHeader, none) 0 getsPending =
      .ok 5 _ from rfl)
  exact ⟨hbody, hwhole,
    (recvResponse_split_iff hwf (by decide) rfl rfl).2⟩

/-- The same header with four bytes before the end of the ring. -/
theorem not_recvResponse_cut :
    (∃ g', recvResponse id 0 (some 1) (fiveHeader, none) 0 getsPending =
      .ok 5 g') ∧
    ∀ g', recvResponse id 0 (some 1) (splitHeader 4 fiveHeader) 0
      getsPending ≠ .ok 5 g' := by
  refine ⟨⟨_, rfl⟩, fun g' hrun => ?_⟩
  have hthrow : ∃ g'', recvResponse id 0 (some 1) (splitHeader 4 fiveHeader) 0
      getsPending = .error copyPastHeader g'' := ⟨_, rfl⟩
  obtain ⟨g'', hthrow⟩ := hthrow
  cases hthrow.symm.trans hrun

end Memcache

end Mutated.Ports
