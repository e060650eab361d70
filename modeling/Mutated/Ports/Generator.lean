import Mutated.Ports.SockHeaders

/-!
# A generator and its connection

`Generator` is the class behind both load generators: a `Sock`, a ring
`requests_` of the requests that wait for their response, and two callbacks,
one that marks a request as sent and one that handles its response.  The two
generators write these callbacks in almost the same words; what differs is in
`Proto`: the name in the texts of the exceptions, the size of a response, and
what the response says.

The socket is a member of the generator, so a connection is a `Sock` whose
world is the rest of the generator.  A pointer `&req` into `requests_` is the
index of the slot.

* The clock is a function of the number of times it was read; it counts
  nanoseconds.
* `client` is whatever the completion callbacks work on.
* `sent`, `done` and the `serial` fields are ghost state: the requests in the
  order they were made, and the samples in the order they were reported.

The reference count is left out: the callbacks do not read it.
-/

namespace Mutated.Ports

open Mutated.Verified.Circular
open Mutated.Verified.Exec
open Mutated.Verified.History
open Relation (ReflTransGen)

/-- `Generator::RequestCB`: queue, service and wait time, bytes received, and
whether the request is measured. -/
abbrev RequestCB (K : Type) := Nat → Nat → Nat → Nat → Bool → K → K

/-- `MemReq` and `SynReq`: `info` is what only one of the two has. -/
structure Request (X K : Type) where
  info : X
  measure : Bool
  cb : Option (RequestCB K)
  startTs : Nat := 0
  sentTs : Nat := 0
  serial : Nat := 0

/-- A request that was made: its slot, and what it was made with. -/
structure Sent (X : Type) where
  slot : Nat
  info : X
  measure : Bool
  deriving DecidableEq, Repr

/-- A sample that was reported: the slot it was recorded against with the
serial number of the request there, and the arguments of the callback. -/
structure Sample where
  slot : Nat
  serial : Nat
  queueUs : Nat
  serviceUs : Nat
  waitUs : Nat
  bytes : Nat
  measure : Bool
  deriving DecidableEq, Repr

/-- The generator without its socket. -/
structure World (X K : Type) (R : ℕ+) where
  sock : Nat
  requests : Buffer (Request X K) R
  ticks : Nat
  client : K
  sent : List (Sent X)
  done : List Sample

/-- What a generator does in its own way: `respond` takes the service time and
the header of a response to the wait time and the number of bytes that follow
the header. -/
structure Proto (X : Type) where
  name : String
  size : Nat
  respond : X → Nat → Segs → Except Exn (Nat × Nat)

/-- A connection of a generator. -/
abbrev Conn (X K : Type) (R C : ℕ+) := Sock (World X K R) R C

section Model

variable {X K : Type} {R C : ℕ+} (clk : Nat → Nat) (P : Proto X)

namespace World

/-- The constructor, with the default request in every slot. -/
def init (sock : Nat) (info : X) (client : K) : World X K R where
  sock := sock
  requests := .init fun _ => ⟨info, false, none, 0, 0, 0⟩
  ticks := 0
  client := client
  sent := []
  done := []

def onRequests {α : Type} (x : EStateM Exn (Buffer (Request X K) R) α) :
    EStateM Exn (World X K R) α :=
  zoom requests (fun b g => { g with requests := b }) x

/-- Write through the reference to the request in slot `p`. -/
def setReq (p : Nat) (req : Request X K) : EStateM Exn (World X K R) Unit :=
  onRequests (modify fun b => { b with buf := blit b.buf p [req] })

/-- `clock::now()`. -/
def now : EStateM Exn (World X K R) Nat := do
  let g ← get
  modify fun g => { g with ticks := g.ticks + 1 }
  pure (clk g.ticks)

/-- `requests_.queue_emplace(..)`: the slot of the new request. -/
def enqueue (info : X) (measure : Bool) (cb : RequestCB K) :
    EStateM Exn (World X K R) Nat := do
  let g ← get
  let p ← onRequests
    (Buffer.queueEmplace ⟨info, measure, some cb, 0, 0, g.sent.length⟩)
  modify fun g => { g with sent := g.sent ++ [⟨p, info, measure⟩] }
  pure p

/-- `req.start_ts = clock::now()`. -/
def stampStart (p : Nat) : EStateM Exn (World X K R) Unit := do
  let t ← now clk
  let g ← get
  setReq p { g.requests.buf p with startTs := t }

end World

open World

/-- `sent_request`. -/
def sentRequest : TxCB (World X K R) := fun s data status => do
  let g ← get
  if g.sock ≠ s then
    throw (.runtimeError
      (P.name ++ "::sent_request: wrong socket in callback"))
  else if status ≠ 0 then
    pure ()
  else
    match data with
    | none => throw (.undefinedBehaviour "sent_request: null request")
    | some p => do
        let t ← now clk
        let g ← get
        setReq p { g.requests.buf p with sentTs := t }

/-- The end of `recv_response`: the sample of the request `req`, which was in
slot `p`. -/
def score (p : Nat) (req : Request X K) (queueUs serviceUs : Nat)
    (segs : Segs) : EStateM Exn (World X K R) Nat :=
  match P.respond req.info serviceUs segs with
  | .error e => throw e
  | .ok (waitUs, bodylen) =>
      match req.cb with
      | none => throw .badFunctionCall
      | some cb => do
          modify fun g => { g with
            client := cb queueUs serviceUs waitUs (P.size + bodylen)
              req.measure g.client
            done := g.done ++ [⟨p, req.serial, queueUs, serviceUs, waitUs,
              P.size + bodylen, req.measure⟩] }
          pure bodylen

/-- The middle of `recv_response`, for a response that arrived at `t`. -/
def report (p : Nat) (req : Request X K) (segs : Segs) (t : Nat) :
    EStateM Exn (World X K R) Nat :=
  if req.sentTs ≤ req.startTs then
    throw (.runtimeError
      (P.name ++ "::recv_response: sent before it was generated"))
  else if t ≤ req.startTs then
    throw (.runtimeError
      (P.name ++ "::recv_response: arrived before it was sent"))
  else
    score P p req ((req.sentTs - req.startTs) / 1000)
      ((t - req.startTs) / 1000) segs

/-- `recv_response`.  A slot keeps its contents when it is dequeued. -/
def recvResponse : RxCB (World X K R) := fun s data segs status => do
  let g ← get
  if g.sock ≠ s then
    throw (.runtimeError
      (P.name ++ "::recv_response: wrong socket in callback"))
  else if status ≠ 0 then do
    onRequests (Buffer.drop 1)
    pure 0
  else if (Buffer.joinSegs segs).length ≠ P.size then
    throw (.runtimeError
      (P.name ++ "::recv_response: unexpected packet size"))
  else do
    let p ← onRequests Buffer.dequeueOne
    if data ≠ some p then
      throw (.runtimeError
        (P.name ++ "::recv_response: wrong response-request packet match"))
    else do
      let t ← now clk
      let g ← get
      report P p (g.requests.buf p) segs t

/-- The second half of `_send_request`, for the request in slot `p`: stamp it,
have the socket report when it is sent, transmit, and await the response. -/
def submit (p : Nat) (wout : List WriteRes) (rin : List ReadRes) :
    EStateM Exn (Conn X K R C) Unit := do
  Sock.onWorld (stampStart clk p)
  Sock.writeCbPoint (some (sentRequest clk P)) (some p)
  Sock.tryTx wout
  Sock.read ⟨P.size, some (recvResponse clk P), 0, none, some p, 0⟩ rin

/-- A new connection. -/
def connect (addr : Nat) (rmem wmem : Nat → UInt8) (info : X) (client : K) :
    Conn X K R C :=
  .init addr rmem wmem (.init addr info client)

end Model

/-! ## What the callbacks do -/

namespace World

variable {X K : Type} {R : ℕ+}

/-- The generator after a request was added to `requests_`. -/
def enqueued (g : World X K R) (info : X) (measure : Bool)
    (cb : RequestCB K) : World X K R :=
  { g with
    requests := (g.requests.stored
      [⟨info, measure, some cb, 0, 0, g.sent.length⟩]).committed 1
    sent := g.sent ++ [⟨g.requests.tail, info, measure⟩] }

/-- The generator after slot `p` was changed and the clock read. -/
def stamped (g : World X K R) (p : Nat) (req : Request X K) : World X K R :=
  { g with
    requests := { g.requests with buf := blit g.requests.buf p [req] }
    ticks := g.ticks + 1 }

/-- The generator after the first request was taken out of `requests_` and the
clock read. -/
def taken (g : World X K R) : World X K R :=
  { g with requests := g.requests.dropped 1, ticks := g.ticks + 1 }

theorem enqueue_ok {g : World X K R} (h : g.requests.WF)
    (hroom : 0 < g.requests.space) (info : X) (measure : Bool)
    (cb : RequestCB K) :
    enqueue info measure cb g =
      .ok g.requests.tail (g.enqueued info measure cb) := by
  have hqueue := Buffer.queueEmplace_ok h hroom
    ⟨info, measure, some cb, 0, 0, g.sent.length⟩
  exact (bind_of_ok rfl).trans ((bind_of_ok (zoom_of_ok hqueue)).trans rfl)

theorem enqueue_throws {g : World X K R} (hfull : g.requests.space = 0)
    (info : X) (measure : Bool) (cb : RequestCB K) :
    ∃ e, enqueue info measure cb g = .error e g ∧ BufferExn e := by
  obtain ⟨e, hqueue⟩ := Buffer.queueEmplace_throws hfull
    ⟨info, measure, some cb, 0, 0, g.sent.length⟩
  exact ⟨e, (bind_of_ok rfl).trans (bind_of_error (zoom_of_error hqueue)),
    (Buffer.queueEmplace_throws_only _).of_error hqueue⟩

theorem stampStart_ok (clk : Nat → Nat) (p : Nat) (g : World X K R) :
    stampStart clk p g = .ok ()
      (g.stamped p { g.requests.buf p with startTs := clk g.ticks }) := rfl

end World

section Callbacks

variable {X K : Type} {R : ℕ+} {clk : Nat → Nat} {P : Proto X}
  {g : World X K R} {addr p : Nat}

/-- A callback of `write_cb_point` for this socket and the request in slot
`p` stamps the request. -/
theorem sentRequest_ok (hsock : g.sock = addr) :
    sentRequest clk P addr (some p) 0 g = .ok ()
      (g.stamped p { g.requests.buf p with sentTs := clk g.ticks }) := by
  have hunfold : sentRequest clk P addr (some p) 0 g =
      (if g.sock ≠ addr then throw (.runtimeError
        (P.name ++ "::sent_request: wrong socket in callback"))
      else do
        let t ← World.now clk
        let g ← get
        World.setReq p { g.requests.buf p with sentTs := t } :
        EStateM Exn (World X K R) Unit) g := rfl
  rw [hunfold, if_neg (not_not_intro hsock)]
  rfl

/-- A response for this socket and the first request is reported. -/
theorem recvResponse_eq (clk : Nat → Nat) (P : Proto X)
    (hsock : g.sock = addr) (hwf : g.requests.WF)
    (hsome : 0 < g.requests.used) (segs : Segs)
    (hsize : (Buffer.joinSegs segs).length = P.size) :
    recvResponse clk P addr (some g.requests.head) segs 0 g =
      report P g.requests.head (g.requests.buf g.requests.head) segs
        (clk g.ticks) g.taken := by
  have hdequeue := Buffer.dequeueOne_ok hwf hsome
  have hunfold : recvResponse clk P addr (some g.requests.head) segs 0 g =
      (if g.sock ≠ addr then throw (.runtimeError
        (P.name ++ "::recv_response: wrong socket in callback"))
      else if (Buffer.joinSegs segs).length ≠ P.size then
        throw (.runtimeError
          (P.name ++ "::recv_response: unexpected packet size"))
      else World.onRequests Buffer.dequeueOne >>= fun p =>
        if some g.requests.head ≠ some p then throw (.runtimeError
          (P.name ++ "::recv_response: wrong response-request packet match"))
        else do
          let t ← World.now clk
          let g ← get
          report P p (g.requests.buf p) segs t :
        EStateM Exn (World X K R) Nat) g := rfl
  rw [hunfold, if_neg (not_not_intro hsock), if_neg (not_not_intro hsize)]
  refine (bind_of_ok (zoom_of_ok hdequeue)).trans ?_
  rw [if_neg (not_not_intro rfl)]
  rfl

/-- A cancelled response only removes the first request. -/
theorem recvResponse_cancelled (hsock : g.sock = addr) (data : Option Nat)
    (segs : Segs) {status : Int} (hstatus : status ≠ 0) :
    recvResponse clk P addr data segs status g =
      (World.onRequests (Buffer.drop 1) >>= fun _ => pure 0) g := by
  have hunfold : recvResponse clk P addr data segs status g =
      (if g.sock ≠ addr then throw (.runtimeError
        (P.name ++ "::recv_response: wrong socket in callback"))
      else if status ≠ 0 then World.onRequests (Buffer.drop 1) >>= fun _ =>
        pure 0
      else if (Buffer.joinSegs segs).length ≠ P.size then
        throw (.runtimeError
          (P.name ++ "::recv_response: unexpected packet size"))
      else World.onRequests Buffer.dequeueOne >>= fun p =>
        if data ≠ some p then throw (.runtimeError
          (P.name ++ "::recv_response: wrong response-request packet match"))
        else do
          let t ← World.now clk
          let g ← get
          report P p (g.requests.buf p) segs t :
        EStateM Exn (World X K R) Nat) g := rfl
  rw [hunfold, if_neg (not_not_intro hsock), if_pos hstatus]

/-- The generator after a sample was reported. -/
def World.reported (P : Proto X) (g : World X K R) (p : Nat)
    (req : Request X K) (cb : RequestCB K)
    (queueUs serviceUs waitUs bodylen : Nat) : World X K R :=
  { g with
    client := cb queueUs serviceUs waitUs (P.size + bodylen) req.measure
      g.client
    done := g.done ++ [⟨p, req.serial, queueUs, serviceUs, waitUs,
      P.size + bodylen, req.measure⟩] }

theorem score_ok_iff {req : Request X K} {segs : Segs}
    {queueUs serviceUs r : Nat} {g' : World X K R} :
    score P p req queueUs serviceUs segs g = .ok r g' ↔
      ∃ waitUs cb, P.respond req.info serviceUs segs = .ok (waitUs, r) ∧
        req.cb = some cb ∧
        g' = g.reported P p req cb queueUs serviceUs waitUs r := by
  unfold score
  cases P.respond req.info serviceUs segs with
  | error e =>
      constructor
      · intro h
        cases h
      · rintro ⟨waitUs, cb, hok, -⟩
        cases hok
  | ok wb =>
      obtain ⟨waitUs, bodylen⟩ := wb
      cases req.cb with
      | none =>
          constructor
          · intro h
            cases h
          · rintro ⟨_, cb, -, hsome, -⟩
            cases hsome
      | some cb =>
          constructor
          · intro h
            cases h
            exact ⟨waitUs, cb, rfl, rfl, rfl⟩
          · rintro ⟨waitUs', cb', hok, hsome, rfl⟩
            cases hok
            cases hsome
            rfl

/-- **What `report` does.**  It returns when the time stamps are in order, the
response can be read and there is a callback. -/
theorem report_ok_iff {req : Request X K} {segs : Segs} {t r : Nat}
    {g' : World X K R} :
    report P p req segs t g = .ok r g' ↔
      req.startTs < req.sentTs ∧ req.startTs < t ∧ ∃ waitUs cb,
        P.respond req.info ((t - req.startTs) / 1000) segs =
          .ok (waitUs, r) ∧
        req.cb = some cb ∧
        g' = g.reported P p req cb ((req.sentTs - req.startTs) / 1000)
          ((t - req.startTs) / 1000) waitUs r := by
  unfold report
  by_cases hsent : req.sentTs ≤ req.startTs
  · rw [if_pos hsent]
    constructor
    · intro h
      cases h
    · rintro ⟨hlt, -⟩
      omega
  rw [if_neg hsent]
  by_cases hnow : t ≤ req.startTs
  · rw [if_pos hnow]
    constructor
    · intro h
      cases h
    · rintro ⟨-, hlt, -⟩
      omega
  rw [if_neg hnow, score_ok_iff]
  exact ⟨fun h => ⟨by omega, by omega, h⟩, fun h => h.2.2⟩

/-- The reasons for `report` to throw. -/
inductive ReportExn (P : Proto X) (req : Request X K) (segs : Segs)
    (t : Nat) : Exn → Prop
  | notSent (h : req.sentTs ≤ req.startTs) : ReportExn P req segs t
      (.runtimeError
        (P.name ++ "::recv_response: sent before it was generated"))
  | early (h : t ≤ req.startTs) : ReportExn P req segs t
      (.runtimeError (P.name ++ "::recv_response: arrived before it was sent"))
  | unread {e : Exn}
      (h : P.respond req.info ((t - req.startTs) / 1000) segs = .error e) :
      ReportExn P req segs t e
  | noCallback (h : req.cb = none) : ReportExn P req segs t .badFunctionCall

theorem report_error {req : Request X K} {segs : Segs} {t : Nat} {e : Exn}
    {g' : World X K R} (h : report P p req segs t g = .error e g') :
    ReportExn P req segs t e := by
  unfold report at h
  by_cases hsent : req.sentTs ≤ req.startTs
  · rw [if_pos hsent] at h
    cases h
    exact .notSent hsent
  rw [if_neg hsent] at h
  by_cases hnow : t ≤ req.startTs
  · rw [if_pos hnow] at h
    cases h
    exact .early hnow
  rw [if_neg hnow, score] at h
  cases hrespond : P.respond req.info ((t - req.startTs) / 1000) segs with
  | error e' =>
      rw [hrespond] at h
      cases h
      exact .unread hrespond
  | ok wb =>
      rw [hrespond] at h
      cases hcb : req.cb with
      | none =>
          rw [hcb] at h
          cases h
          exact .noCallback hcb
      | some cb =>
          rw [hcb] at h
          cases h

end Callbacks

end Mutated.Ports
