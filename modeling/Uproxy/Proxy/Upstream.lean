import Uproxy.Proxy.Client

/-!
# Talking to an upstream (`write_all`, `read_response`)

The functions of `proxy.cpp` that move bytes over the socket of an upstream connection. What the
system answers is an input: what `send` returns, and for each turn of `read_response` what `poll`
and `recv` return. Where the answers end, the system does not answer before the timeout.

* `responseComplete` parses into the same record again and again, so that record keeps what an
  earlier parse or one that failed has stored;
* `readLoop` has six exits (`ReadEnd`). Three of them return the bytes read as a response: the
  response is complete, the upstream has closed the connection, or the wait for more has failed and
  the record has a head without a length;
* `header_bytes + content_length` is a sum of 64-bit numbers, which may wrap.

`readLoop_justified` says what is known at each exit, and `responseComplete_eq` that the record
handed in plays no part in whether a response is complete. `readResponse_stops` follows the loop
turn by turn: it gets past some of them (`ReadsPast`), stops there (`StopsAt`), and what it returns
is what these turns have brought.
-/

namespace Uproxy

open Lib.Search

/-! ## The code -/

/-- `MAX_PROXY_RESPONSE_BYTES`. -/
def maxProxyResponseBytes : Nat := 64 * 1024 * 1024

/-- `header_name_eq`. -/
def headerNameEq (a b : Bytes) : Bool := lower a == lower b

/-- What `poll` answers: the event, an error without it, nothing in time, or an error of its own. -/
inductive Poll where
  | ready
  | broken
  | timeout
  | interrupted
  | failed (errno : Int)
  deriving DecidableEq, Repr

/-- `wait_fd`. -/
def waitFd (op : String) : List Poll → Result Unit
  | [] => .error (.fromCode .timeout op)
  | .ready :: _ => .ok ()
  | .broken :: _ => .error (.fromCode .sysError op)
  | .timeout :: _ => .error (.fromCode .timeout op)
  | .interrupted :: ps => waitFd op ps
  | .failed errno :: _ => .error (.fromErrno errno op)

/-- What `send` to an upstream answers, and `poll` where it would block. -/
structure UpstreamSend where
  send  : Send
  polls : List Poll := [.ready]
  deriving DecidableEq, Repr

/-- `write_all`: the result and the bytes that are left. -/
def writeAll : List UpstreamSend → Bytes → Result Unit × Bytes
  | _, [] => (.ok (), [])
  | [], bytes => (.error (.fromCode .timeout "write upstream"), bytes)
  | s :: ss, bytes =>
    match s.send with
    | .sent n _ => writeAll ss (bytes.drop n)
    | .wouldBlock =>
      match waitFd "write upstream" s.polls with
      | .error e => (.error e, bytes)
      | .ok () => writeAll ss bytes
    | .interrupted => writeAll ss bytes
    | .failed errno => (.error (.fromErrno errno "write upstream"), bytes)

/-- A response has a `content-length` field. -/
def hasContentLength (resp : HttpResponse) : Bool :=
  resp.headers.any fun h => headerNameEq h.name (ascii "content-length")

/-- The end of a response whose head is parsed has been received. -/
def bodyReceived (response : Bytes) (resp : HttpResponse) : Bool :=
  if resp.chunked then
    (findFrom (ascii "\r\n0\r\n\r\n") response resp.headerBytes).isSome ||
      contains (ascii "\r\n0;") response
  else if hasContentLength resp then
    (resp.headerBytes + resp.contentLength) % sizeMod ≤ response.length
  else resp.status = 204 ∨ resp.status = 304

/-- `response_complete`, with the record behind it. -/
def responseComplete (response : Bytes) (parsed : HttpResponse) : Bool × HttpResponse :=
  match parseResponse (Buffer.ofBytes response).toRingBuffer parsed with
  | (.complete, parsed) => (bodyReceived response parsed, parsed)
  | (_, parsed) => (false, parsed)

/-- One turn of `read_response`: what `poll` answers, and `recv` behind it. -/
structure ReadTurn where
  polls : List Poll := [.ready]
  recv  : Recv
  deriving DecidableEq, Repr

/-- The exits of `read_response`. -/
inductive ReadEnd where
  /-- The response is complete. -/
  | complete (bytes : Bytes)
  | tooLarge
  /-- Nothing more came, and the record has a head without a length. -/
  | gaveUp (bytes : Bytes)
  /-- Nothing more came. -/
  | noAnswer (e : Error)
  /-- The upstream has closed the connection. -/
  | eof (bytes : Bytes)
  | failed (errno : Int)
  deriving DecidableEq, Repr

/-- What `read_response` returns. -/
def ReadEnd.result : ReadEnd → Result Bytes
  | complete bytes => .ok bytes
  | tooLarge => .error (.fromCode .httpMalformed "upstream response too large")
  | gaveUp bytes => .ok bytes
  | noAnswer e => .error e
  | eof bytes => .ok bytes
  | failed errno => .error (.fromErrno errno "read upstream")

/-- The checks at the head of the loop; `next` is what follows them. -/
def readChecks (response : Bytes) (parsed : HttpResponse) (next : HttpResponse → ReadEnd) :
    ReadEnd :=
  match responseComplete response parsed with
  | (true, _) => .complete response
  | (false, parsed) =>
    if maxProxyResponseBytes ≤ response.length then .tooLarge else next parsed

/-- The branch for an error of `wait_fd`. -/
def unanswered (response : Bytes) (e : Error) (parsed : HttpResponse) : ReadEnd :=
  if 0 < parsed.headerBytes ∧ parsed.contentLength = 0 ∧ parsed.chunked = false then
    .gaveUp response
  else .noAnswer e

/-- The loop of `read_response`. -/
def readLoop : List ReadTurn → Bytes → HttpResponse → ReadEnd
  | [], response, parsed =>
    readChecks response parsed (unanswered response (.fromCode .timeout "read upstream"))
  | t :: ts, response, parsed =>
    readChecks response parsed fun parsed =>
      match waitFd "read upstream" t.polls with
      | .error e => unanswered response e parsed
      | .ok () =>
        match t.recv with
        | .bytes d => if d = [] then .eof response else readLoop ts (response ++ d) parsed
        | .interrupted => readLoop ts response parsed
        | .wouldBlock => readLoop ts response parsed
        | .failed errno => .failed errno

/-- `read_response`. -/
def readResponse (turns : List ReadTurn) : ReadEnd := readLoop turns [] {}

/-- What the system answers in one attempt. -/
structure UpstreamIo where
  calls : ConnectCalls
  sends : List UpstreamSend
  turns : List ReadTurn
  /-- The clock at `release`. -/
  now   : Nat := 0
  deriving DecidableEq, Repr

/-- The attempt to send some bytes. -/
def UpstreamIo.attempt (io : UpstreamIo) (request : Bytes) : Attempt :=
  { calls := io.calls
    wrote := (writeAll io.sends request).1
    response := (readResponse io.turns).result
    now := io.now }

/-! ## Parsing again -/

/-- A parse that succeeds overwrites the whole record. -/
theorem parseResponse_record (buf : RingBuffer) (r r' : HttpResponse) :
    (parseResponse buf r).1 = (parseResponse buf r').1 ∧
      ((parseResponse buf r).1 = .complete →
        (parseResponse buf r).2 = (parseResponse buf r').2) := by
  unfold parseResponse parseResponseHeaders
  rcases hsplit : splitHead (buf.peek (min buf.readable (maxHeaderBytes + 1))) with
    e | ⟨start, rest, n⟩
  · refine ⟨rfl, fun h => ?_⟩
    simp only at h
    exact absurd (hsplit.trans (congrArg _ h)) (splitHead_ne_complete _)
  · simp only
    cases statusLine start with
    | none => exact ⟨rfl, fun h => by cases h⟩
    | some line => exact ⟨rfl, fun _ => rfl⟩

/-- A response is complete: its head parses, and its end is there. -/
def isComplete (response : Bytes) : Bool :=
  match parseAnswer response with
  | (.complete, resp) => bodyReceived response resp
  | _ => false

/-- **Whether a response is complete** does not depend on the record, and the record is that of a
first parse if the head parses. -/
theorem responseComplete_eq (response : Bytes) (parsed : HttpResponse) :
    (responseComplete response parsed).1 = isComplete response ∧
      ((parseAnswer response).1 = .complete →
        (responseComplete response parsed).2 = (parseAnswer response).2) := by
  obtain ⟨h1, h2⟩ := parseResponse_record (Buffer.ofBytes response).toRingBuffer parsed {}
  unfold responseComplete isComplete parseAnswer
  rcases hp : parseResponse (Buffer.ofBytes response).toRingBuffer parsed with ⟨v, resp⟩
  rcases hp' : parseResponse (Buffer.ofBytes response).toRingBuffer {} with ⟨v', resp'⟩
  rw [hp, hp'] at h1 h2
  simp only at h1 h2
  subst h1
  cases v with
  | complete => rw [h2 rfl]; exact ⟨rfl, fun _ => rfl⟩
  | incomplete => exact ⟨rfl, fun h => by cases h⟩
  | error => exact ⟨rfl, fun h => by cases h⟩

/-! ## The exits -/

/-- What is known where `read_response` returns bytes. -/
def ReadEnd.Justified : ReadEnd → Prop
  | complete bytes => isComplete bytes = true
  | gaveUp bytes => isComplete bytes = false ∧ bytes.length < maxProxyResponseBytes ∧
      ∃ parsed, (responseComplete bytes parsed).2.contentLength = 0 ∧
        (responseComplete bytes parsed).2.chunked = false
  | eof bytes => isComplete bytes = false ∧ bytes.length < maxProxyResponseBytes
  | _ => True

theorem readChecks_eq (response : Bytes) (parsed : HttpResponse) (next : HttpResponse → ReadEnd) :
    readChecks response parsed next =
      if isComplete response = true then .complete response
      else if maxProxyResponseBytes ≤ response.length then .tooLarge
      else next (responseComplete response parsed).2 := by
  rw [← (responseComplete_eq response parsed).1]
  unfold readChecks
  rcases responseComplete response parsed with ⟨_ | _, parsed'⟩ <;> rfl

theorem readChecks_justified {response : Bytes} {parsed : HttpResponse}
    {next : HttpResponse → ReadEnd}
    (h : isComplete response = false → response.length < maxProxyResponseBytes →
      (next (responseComplete response parsed).2).Justified) :
    (readChecks response parsed next).Justified := by
  rw [readChecks_eq]
  split_ifs with hc hmax
  · exact hc
  · trivial
  · exact h (Bool.eq_false_iff.mpr hc) (Nat.lt_of_not_le hmax)

theorem unanswered_justified {response : Bytes} {parsed : HttpResponse} (e : Error)
    (hc : isComplete response = false) (hmax : response.length < maxProxyResponseBytes) :
    (unanswered response e (responseComplete response parsed).2).Justified := by
  unfold unanswered
  split_ifs with h
  · exact ⟨hc, hmax, parsed, h.2⟩
  · trivial

/-- **What is known at the exits** of `read_response`. -/
theorem readLoop_justified : ∀ (ts : List ReadTurn) (response : Bytes) (parsed : HttpResponse),
    (readLoop ts response parsed).Justified
  | [], response, parsed =>
    readChecks_justified fun hc hmax => unanswered_justified _ hc hmax
  | t :: ts, response, parsed => by
    refine readChecks_justified fun hc hmax => ?_
    cases waitFd "read upstream" t.polls with
    | error e => exact unanswered_justified e hc hmax
    | ok =>
      cases t.recv with
      | bytes d =>
        simp only
        split_ifs
        · exact ⟨hc, hmax⟩
        · exact readLoop_justified ts _ _
      | interrupted => exact readLoop_justified ts _ _
      | wouldBlock => exact readLoop_justified ts _ _
      | failed errno => trivial

theorem readResponse_justified (turns : List ReadTurn) : (readResponse turns).Justified :=
  readLoop_justified turns [] {}

/-! ## Turn by turn -/

/-- The bytes that `recv` has brought. -/
def received (turns : List ReadTurn) : Bytes :=
  turns.flatMap fun t => match t.recv with
    | .bytes d => d
    | _ => []

/-- `recv` is called in this turn, and the loop goes on behind it. -/
def ReadTurn.GoesOn (t : ReadTurn) : Prop :=
  waitFd "read upstream" t.polls = .ok () ∧ t.recv ≠ .bytes [] ∧ ∀ errno, t.recv ≠ .failed errno

/-- `recv` finds the connection closed in turn `k`. -/
def ClosesAt (turns : List ReadTurn) (k : Nat) : Prop :=
  ∃ t, turns[k]? = some t ∧ waitFd "read upstream" t.polls = .ok () ∧ t.recv = .bytes []

/-- The checks at the head of the loop let it go on. -/
def Unfinished (response : Bytes) : Prop :=
  isComplete response = false ∧ response.length < maxProxyResponseBytes

/-- The loop gets past its first `k` turns. -/
structure ReadsPast (turns : List ReadTurn) (k : Nat) : Prop where
  le_length  : k ≤ turns.length
  goesOn     : ∀ t ∈ turns.take k, t.GoesOn
  unfinished : ∀ j < k, Unfinished (received (turns.take j))

/-- It gets no further than that. -/
def StopsAt (turns : List ReadTurn) (k : Nat) : Prop :=
  Unfinished (received (turns.take k)) → ∀ t, turns[k]? = some t → ¬ t.GoesOn

theorem received_append (ts us : List ReadTurn) :
    received (ts ++ us) = received ts ++ received us := List.flatMap_append

theorem received_take_prefix (turns : List ReadTurn) {j k : Nat} (h : j ≤ k) :
    received (turns.take j) <+: received (turns.take k) := by
  obtain ⟨us, hus⟩ := List.take_prefix_take_left (l := turns) h
  exact ⟨received us, by rw [← hus, received_append]⟩

section

variable (ts : List ReadTurn) {t : ReadTurn} {response : Bytes} (parsed : HttpResponse)

theorem readLoop_complete (h : isComplete response = true) :
    readLoop ts response parsed = .complete response := by
  cases ts <;> rw [readLoop, readChecks_eq, if_pos h]

theorem readLoop_tooLarge (hc : isComplete response = false)
    (hmax : maxProxyResponseBytes ≤ response.length) : readLoop ts response parsed = .tooLarge := by
  cases ts <;> rw [readLoop, readChecks_eq, if_neg (Bool.eq_false_iff.mp hc), if_pos hmax]

theorem readChecks_unfinished (h : Unfinished response) (next : HttpResponse → ReadEnd) :
    readChecks response parsed next = next (responseComplete response parsed).2 := by
  rw [readChecks_eq, if_neg (Bool.eq_false_iff.mp h.1), if_neg (Nat.not_le_of_lt h.2)]

theorem readLoop_goesOn (h : Unfinished response) (ht : t.GoesOn) :
    ∃ parsed', readLoop (t :: ts) response parsed =
      readLoop ts (response ++ received [t]) parsed' := by
  obtain ⟨hwait, hne, hfail⟩ := ht
  refine ⟨(responseComplete response parsed).2, (readChecks_unfinished parsed h _).trans ?_⟩
  rw [hwait]
  cases hrecv : t.recv with
  | bytes d =>
    have hd : d ≠ [] := fun hd => hne (hrecv.trans (congrArg Recv.bytes hd))
    simp [received, hrecv, hd]
  | interrupted => simp [received, hrecv]
  | wouldBlock => simp [received, hrecv]
  | failed errno => exact absurd hrecv (hfail errno)

theorem readLoop_closes {ts : List ReadTurn} (h : Unfinished response) (hclose : ClosesAt ts 0) :
    readLoop ts response parsed = .eof response := by
  obtain ⟨t, ht, hwait, hrecv⟩ := hclose
  cases ts with
  | nil => cases ht
  | cons t' ts =>
    cases ht
    rw [readLoop, readChecks_unfinished parsed h, hwait, hrecv]
    rfl

/-- Where the loop goes no further, it returns what it has or fails. -/
theorem readLoop_stops (h : Unfinished response) (hstop : ∀ t, ts[0]? = some t → ¬ t.GoesOn)
    (hclose : ¬ ClosesAt ts 0) : readLoop ts response parsed = .gaveUp response ∨
      ∃ e, (readLoop ts response parsed).result = .error e := by
  have hunanswered : ∀ (e : Error) (parsed : HttpResponse),
      unanswered response e parsed = .gaveUp response ∨
        ∃ e', (unanswered response e parsed).result = .error e' := by
    intro e parsed
    unfold unanswered
    split_ifs
    · exact Or.inl rfl
    · exact Or.inr ⟨e, rfl⟩
  cases ts with
  | nil =>
    rw [readLoop, readChecks_unfinished parsed h]
    exact hunanswered _ _
  | cons t ts =>
    rw [readLoop, readChecks_unfinished parsed h]
    cases hwait : waitFd "read upstream" t.polls with
    | error e => exact hunanswered _ _
    | ok =>
      obtain ⟨errno, hrecv⟩ : ∃ errno, t.recv = .failed errno := by
        by_contra hnone
        exact hstop t rfl ⟨hwait, fun hrecv => hclose ⟨t, rfl, hwait, hrecv⟩,
          fun errno hrecv => hnone ⟨errno, hrecv⟩⟩
      rw [hrecv]
      exact Or.inr ⟨_, rfl⟩

end

section

variable {turns : List ReadTurn} {k : Nat}

theorem ReadsPast.of_succ (h : ReadsPast turns (k + 1)) : ReadsPast turns k where
  le_length := Nat.le_of_succ_le h.le_length
  goesOn t ht := h.goesOn t ((List.take_prefix_take_left (Nat.le_succ k)).subset ht)
  unfinished j hj := h.unfinished j (Nat.lt_succ_of_lt hj)

/-- **Past some turns** the loop is as it would be with what they have brought. -/
theorem ReadsPast.readResponse_eq : ∀ {k : Nat}, ReadsPast turns k → ∃ parsed,
    readResponse turns = readLoop (turns.drop k) (received (turns.take k)) parsed
  | 0, _ => ⟨{}, rfl⟩
  | k + 1, h => by
    obtain ⟨parsed, heq⟩ := h.of_succ.readResponse_eq
    have hlt : k < turns.length := h.le_length
    have htake := List.take_concat_get' turns k hlt
    have hgoes : turns[k].GoesOn :=
      h.goesOn _ (htake ▸ List.mem_append_right _ (List.mem_singleton_self _))
    obtain ⟨parsed', hstep⟩ :=
      readLoop_goesOn (turns.drop (k + 1)) parsed (h.unfinished k (Nat.lt_succ_self k)) hgoes
    refine ⟨parsed', heq.trans ?_⟩
    rw [List.drop_eq_getElem_cons hlt, hstep, ← htake, received_append]

/-- Some turns are made, and no others. -/
theorem exists_readsPast (turns : List ReadTurn) : ∃ k, ReadsPast turns k ∧ StopsAt turns k := by
  by_contra hnone
  -- otherwise the loop would get past any number of turns
  have hall : ∀ k, ReadsPast turns k := by
    intro k
    induction k with
    | zero =>
      exact ⟨Nat.zero_le _, fun t ht => absurd ht List.not_mem_nil,
        fun j hj => absurd hj (Nat.not_lt_zero j)⟩
    | succ k ih =>
      obtain ⟨hu, t, ht, hgoes⟩ : Unfinished (received (turns.take k)) ∧
          ∃ t, turns[k]? = some t ∧ t.GoesOn := by
        by_contra hnot
        exact hnone ⟨k, ih, fun hu t ht hgoes => hnot ⟨hu, t, ht, hgoes⟩⟩
      obtain ⟨hlt, rfl⟩ := List.getElem?_eq_some_iff.mp ht
      refine ⟨hlt, fun t ht => ?_, fun j hj => ?_⟩
      · rw [← List.take_concat_get' turns k hlt] at ht
        rcases List.mem_append.mp ht with ht | ht
        · exact ih.goesOn t ht
        · exact List.mem_singleton.mp ht ▸ hgoes
      · rcases Nat.lt_succ_iff_lt_or_eq.mp hj with hj | rfl
        · exact ih.unfinished j hj
        · exact hu
  exact absurd (hall (turns.length + 1)).le_length (Nat.not_succ_le_self _)

theorem ReadsPast.goes {j : Nat} (h : ReadsPast turns k) (hj : j < k) :
    Unfinished (received (turns.take j)) ∧ ∃ t, turns[j]? = some t ∧ t.GoesOn := by
  have hlt : j < turns.length := Nat.lt_of_lt_of_le hj h.le_length
  refine ⟨h.unfinished j hj, turns[j], List.getElem?_eq_getElem hlt, h.goesOn _ ?_⟩
  exact List.mem_take_iff_getElem.mpr ⟨j, by omega, rfl⟩

/-- There is one place to stop at. -/
theorem ReadsPast.unique {j : Nat} (hj : ReadsPast turns j) (hj' : StopsAt turns j)
    (hk : ReadsPast turns k) (hk' : StopsAt turns k) : j = k := by
  rcases Nat.lt_trichotomy j k with hlt | heq | hlt
  · obtain ⟨hu, t, ht, hgoes⟩ := hk.goes hlt
    exact absurd hgoes (hj' hu t ht)
  · exact heq
  · obtain ⟨hu, t, ht, hgoes⟩ := hj.goes hlt
    exact absurd hgoes (hk' hu t ht)

/-- **The exits of `read_response`, on the turns**: the loop gets past some of them, no further, and
returns what these have brought or fails. -/
theorem readResponse_stops (turns : List ReadTurn) : ∃ k, ReadsPast turns k ∧ StopsAt turns k ∧
    ((isComplete (received (turns.take k)) = true ∧
        readResponse turns = .complete (received (turns.take k))) ∨
      (Unfinished (received (turns.take k)) ∧ ClosesAt turns k ∧
        readResponse turns = .eof (received (turns.take k))) ∨
      (Unfinished (received (turns.take k)) ∧ ¬ ClosesAt turns k ∧
        readResponse turns = .gaveUp (received (turns.take k))) ∨
      ∃ e, (readResponse turns).result = .error e) := by
  obtain ⟨k, hpast, hstop⟩ := exists_readsPast turns
  obtain ⟨parsed, heq⟩ := hpast.readResponse_eq
  refine ⟨k, hpast, hstop, ?_⟩
  rw [heq]
  have hfirst : (turns.drop k)[0]? = turns[k]? := List.getElem?_drop
  have hcloses : ClosesAt (turns.drop k) 0 ↔ ClosesAt turns k := by
    unfold ClosesAt
    rw [hfirst]
  cases hc : isComplete (received (turns.take k)) with
  | true => exact Or.inl ⟨rfl, readLoop_complete _ parsed hc⟩
  | false =>
    by_cases hmax : (received (turns.take k)).length < maxProxyResponseBytes
    · have hu : Unfinished (received (turns.take k)) := ⟨hc, hmax⟩
      by_cases hclose : ClosesAt turns k
      · exact Or.inr (Or.inl ⟨hu, hclose, readLoop_closes parsed hu (hcloses.mpr hclose)⟩)
      · have hclose' : ¬ ClosesAt (turns.drop k) 0 := fun h => hclose (hcloses.mp h)
        rcases readLoop_stops _ parsed hu (hfirst ▸ hstop hu) hclose' with h | h
        · exact Or.inr (Or.inr (Or.inl ⟨hu, hclose, h⟩))
        · exact Or.inr (Or.inr (Or.inr h))
    · rw [readLoop_tooLarge _ parsed hc (Nat.le_of_not_lt hmax)]
      exact Or.inr (Or.inr (Or.inr ⟨_, rfl⟩))

end

end Uproxy
