import Uproxy.Proxy.Upstream

/-!
# The retry loop of `forward_http1`

A request is tried on a connection of the pool, and once more if that fails. `tries` is the log of
the attempts: it follows `forwardLoop` and keeps for each attempt what came of it, with the pool
behind `acquire` and at the end of the attempt. `tries_spec` says how log and result belong
together: all attempts are fruitless and the result is an error, or the last one is answered, its
answer is the result, and its connection is released.

* **`upstream_recovers`**: what the retry promises about stale connections holds of a call exactly
  if its answer was not read up to the end of the connection, or from a head that does not parse. An
  answer that ends with the connection, be it empty, is returned as a response, and the connection
  goes back into the pool (`upstream_recovers_stale`);
* **`request_sent_once`**: a request is sent once unless its first attempt is written as a whole and
  not answered, and the second one is written too. The method is not looked at
  (`request_sent_once_post`).
-/

namespace Uproxy

/-! ## The log -/

/-- What came of an attempt. -/
structure Try where
  /-- There was an idle connection. -/
  pooled   : Bool
  acquired : Result PooledConn
  /-- The result of `write_all`, and the exit of `read_response`. -/
  wrote    : Result Unit
  ending   : ReadEnd
  /-- The pool behind `acquire`, and at the end of the attempt. -/
  taken    : UpstreamPool
  left     : UpstreamPool
  deriving DecidableEq, Repr

/-- The attempts of `forwardLoop`. -/
def tries (request : Bytes) (attempt : Nat) : List UpstreamIo → Exchange → List Try
  | [], _ => []
  | io :: rest, x =>
    let a := io.attempt request
    match x.pool.acquire x.endpoints io.calls with
    | (.error e, pool, _) =>
      [⟨!x.pool.idle.isEmpty, .error e, a.wrote, readResponse io.turns, pool, pool⟩]
    | (.ok conn, pool, endpoints) =>
      let y : Exchange := { endpoints, pool, outstanding := conn :: x.outstanding }
      if a.Failed then
        ⟨!x.pool.idle.isEmpty, .ok conn, a.wrote, readResponse io.turns, pool,
            (y.dropConn a.now).pool⟩ ::
          if attempt = 0 then tries request (attempt + 1) rest (y.dropConn a.now) else []
      else
        [⟨!x.pool.idle.isEmpty, .ok conn, a.wrote, readResponse io.turns, pool,
          (y.giveBack a.now { conn with requestCount := conn.requestCount + 1 }).pool⟩]

namespace Try

/-- The whole request was written. -/
def sent (t : Try) : Bool := t.acquired.isOk && t.wrote.isOk

/-- A response was read. -/
def answered (t : Try) : Bool := t.sent && t.ending.result.isOk

/-- The upstream closed the connection behind these bytes. -/
def SawEof (t : Try) (bytes : Bytes) : Prop := t.sent = true ∧ t.ending = .eof bytes

/-- The connection is one that `release` does not keep. -/
def Discarded (t : Try) : Prop :=
  ∀ conn, t.acquired = .ok conn → conn.valid = false ∨
    t.taken.cfg.maxKeepalive.toNat ≤ conn.requestCount + 1

/-- An answer that was given up, or that ended with the connection, has a head that parses, and the
connection is not kept in the latter case. -/
def Sound (t : Try) : Prop :=
  t.sent = true →
    match t.ending with
    | .gaveUp bytes => (parseAnswer bytes).1 = .complete
    | .eof bytes => (parseAnswer bytes).1 = .complete ∧ t.Discarded
    | _ => True

end Try

/-- How a result belongs to its log. -/
inductive Decides : Result Bytes → List Try → Prop where
  /-- No attempt is answered. -/
  | failed {e log} (h : ∀ t ∈ log, t.answered = false) : Decides (.error e) log
  /-- The last attempt is answered, and its connection is released. -/
  | served {log t conn now bytes} (h : ∀ t ∈ log, t.answered = false)
      (hsent : t.acquired = .ok conn ∧ t.wrote = .ok ()) (hend : t.ending.result = .ok bytes)
      (hleft : t.left =
        t.taken.release now (some { conn with requestCount := conn.requestCount + 1 })) :
      Decides (.ok bytes) (log ++ [t])

theorem Decides.cons {r : Result Bytes} {log : List Try} {t : Try} (ht : t.answered = false)
    (h : Decides r log) : Decides r (t :: log) := by
  cases h with
  | failed h => exact .failed (List.forall_mem_cons.mpr ⟨ht, h⟩)
  | @served log _ _ _ _ h hsent hend hleft =>
    exact @Decides.served (t :: log) _ _ _ _ (List.forall_mem_cons.mpr ⟨ht, h⟩) hsent hend hleft

theorem Attempt.not_failed {a : Attempt} (h : ¬ a.Failed) :
    ∃ bytes, a.wrote = .ok () ∧ a.response = .ok bytes := by
  unfold Attempt.Failed at h
  rw [not_or] at h
  cases hw : a.wrote with
  | error e => exact absurd ⟨e, hw⟩ h.1
  | ok =>
    cases hr : a.response with
    | error e => exact absurd ⟨e, hr⟩ h.2
    | ok bytes => exact ⟨bytes, rfl, rfl⟩

/-- An attempt that fails is not answered. -/
theorem Attempt.Failed.not_answered {io : UpstreamIo} {request : Bytes}
    (h : (io.attempt request).Failed) {t : Try} (hw : t.wrote = (io.attempt request).wrote)
    (he : t.ending = readResponse io.turns) : t.answered = false := by
  unfold Try.answered Try.sent
  rcases h with ⟨e, herr⟩ | ⟨e, herr⟩
  · rw [hw, herr]
    cases t.acquired <;> rfl
  · rw [he, show (readResponse io.turns).result = .error e from herr]
    exact Bool.and_false _

/-- **The log of a call and its result.** -/
theorem tries_spec (request : Bytes) : ∀ (ios : List UpstreamIo) (attempt : Nat) (x : Exchange),
    Decides (forwardLoop attempt (ios.map fun io => io.attempt request) x).1
        (tries request attempt ios x) ∧
      ∀ t ∈ tries request attempt ios x, t.ending.Justified
  | [], _, _ => ⟨.failed (List.forall_mem_nil _), List.forall_mem_nil _⟩
  | io :: rest, attempt, x => by
    have hjust := readResponse_justified io.turns
    rw [List.map_cons]
    rcases hacq : x.pool.acquire x.endpoints io.calls with ⟨e | conn, pool, endpoints⟩
    · have hacq' : x.pool.acquire x.endpoints (io.attempt request).calls = _ := hacq
      simp only [tries, hacq, forwardLoop, hacq', List.forall_mem_singleton]
      exact ⟨.failed (List.forall_mem_singleton.mpr rfl), hjust⟩
    · let y : Exchange := { endpoints, pool, outstanding := conn :: x.outstanding }
      have hacq' : x.pool.acquire x.endpoints (io.attempt request).calls =
        (.ok conn, pool, endpoints) := hacq
      by_cases hf : (io.attempt request).Failed
      · rcases forwardLoop_ok attempt (rest.map fun io => io.attempt request) hacq' with
          ⟨-, ⟨h0, hloop⟩ | ⟨h0, e, hloop⟩⟩ | ⟨hn, -⟩
        · obtain ⟨ih1, ih2⟩ := tries_spec request rest (attempt + 1)
            (y.dropConn (io.attempt request).now)
          rw [hloop]
          simp only [tries, hacq, if_pos hf, if_pos h0]
          exact ⟨ih1.cons (hf.not_answered rfl rfl), List.forall_mem_cons.mpr ⟨hjust, ih2⟩⟩
        · rw [hloop]
          simp only [tries, hacq, if_pos hf, if_neg h0, List.forall_mem_singleton]
          exact ⟨.failed (List.forall_mem_singleton.mpr (hf.not_answered rfl rfl)), hjust⟩
        · exact absurd hf hn
      · obtain ⟨bytes, hw, hr⟩ := Attempt.not_failed hf
        simp only [tries, hacq, if_neg hf, forwardLoop, hacq', hw, hr, List.forall_mem_singleton]
        refine ⟨@Decides.served [] _ _ _ _ ?_ ⟨rfl, rfl⟩ hr rfl, hjust⟩
        exact List.forall_mem_nil _

/-! ## Stale connections -/

/-- What the retry promises about connections that are stale or break. -/
structure Recovers (result : Result Bytes) (log : List Try) : Prop where
  /-- A response that is returned has a head that parses. -/
  parses  : ∀ bytes, result = .ok bytes → (parseAnswer bytes).1 = .complete
  /-- A pooled connection that ends without any byte is replaced, or the call fails. -/
  retried : ∀ i t, log[i]? = some t → t.pooled = true → t.SawEof [] →
    if i = 0 then log.length = 2 else ∃ e, result = .error e
  /-- A connection that has ended is not put back. -/
  dropped : ∀ t ∈ log, ∀ bytes, t.SawEof bytes → t.left.idle = t.taken.idle

theorem Try.sent_iff (t : Try) :
    t.sent = true ↔ (∃ conn, t.acquired = .ok conn) ∧ t.wrote = .ok () := by
  unfold Try.sent
  cases t.acquired <;> cases t.wrote <;> simp [Except.isOk, Except.toBool]

/-- Only answered attempts end with the connection, or are given up. -/
theorem Try.answered_of_result {t : Try} {bytes : Bytes} (hs : t.sent = true)
    (h : t.ending.result = .ok bytes) : t.answered = true := by
  unfold Try.answered
  rw [hs, h]
  rfl

/-- `release` keeps a connection unless it is discarded. -/
theorem Try.discarded_iff {t : Try} {conn : PooledConn} {now : Nat} (hacq : t.acquired = .ok conn)
    (hleft : t.left =
      t.taken.release now (some { conn with requestCount := conn.requestCount + 1 })) :
    t.left.idle = t.taken.idle ↔ t.Discarded := by
  unfold Try.Discarded
  rw [hleft]
  rcases t.taken.release_cases now { conn with requestCount := conn.requestCount + 1 } with
    ⟨hd, hr⟩ | ⟨hv, hlt, hr⟩
  · rw [hr]
    refine iff_of_true rfl fun c hc => ?_
    rw [hacq] at hc
    cases hc
    exact hd
  · rw [hr]
    refine iff_of_false (fun h => by simpa using congrArg List.length h) fun h => ?_
    rcases h conn hacq with h | h
    · have : conn.valid = true := hv
      rw [this] at h
      cases h
    · exact absurd hlt (Nat.not_lt.mpr h)

/-- An attempt that is answered decides the call. -/
theorem Decides.of_answered {r : Result Bytes} {log : List Try} {t : Try} (h : Decides r log)
    (ht : t ∈ log) (hans : t.answered = true) :
    ∃ bytes, t.ending.result = .ok bytes ∧ r = .ok bytes ∧
      (t.left.idle = t.taken.idle ↔ t.Discarded) := by
  cases h with
  | failed h => exact absurd hans (by simp [h t ht])
  | @served log t' conn now bytes h hsent hend hleft =>
    rcases List.mem_append.mp ht with ht | ht
    · exact absurd hans (by simp [h t ht])
    · rw [List.mem_singleton.mp ht]
      exact ⟨bytes, hend, rfl, Try.discarded_iff hsent.1 hleft⟩

theorem parses_of_isComplete {bytes : Bytes} (h : isComplete bytes = true) :
    (parseAnswer bytes).1 = .complete := by
  unfold isComplete at h
  rcases hp : parseAnswer bytes with ⟨v, resp⟩
  rw [hp] at h
  cases v with
  | complete => rfl
  | incomplete => cases h
  | error => cases h

/-- What a sound attempt returns has a head that parses. -/
theorem Try.Sound.parses {t : Try} {bytes : Bytes} (h : t.Sound) (hs : t.sent = true)
    (hj : t.ending.Justified) (hres : t.ending.result = .ok bytes) :
    (parseAnswer bytes).1 = .complete := by
  have hgood := h hs
  cases hend : t.ending with
  | complete b =>
    rw [hend] at hres hj
    cases hres
    exact parses_of_isComplete hj
  | gaveUp b =>
    rw [hend] at hres hgood
    cases hres
    exact hgood
  | eof b =>
    rw [hend] at hres hgood
    cases hres
    exact hgood.1
  | tooLarge => rw [hend] at hres; cases hres
  | noAnswer e => rw [hend] at hres; cases hres
  | failed errno => rw [hend] at hres; cases hres

/-- An attempt that returns bytes decides the call. -/
theorem Decides.of_result {r : Result Bytes} {log : List Try} {t : Try} {bytes : Bytes}
    (h : Decides r log) (ht : t ∈ log) (hs : t.sent = true) (hres : t.ending.result = .ok bytes) :
    r = .ok bytes ∧ (t.left.idle = t.taken.idle ↔ t.Discarded) := by
  obtain ⟨b, hb, hr, hidle⟩ := h.of_answered ht (Try.answered_of_result hs hres)
  rw [hres] at hb
  cases hb
  exact ⟨hr, hidle⟩

theorem Recovers.sound {r : Result Bytes} {log : List Try} (hrec : Recovers r log)
    (h : Decides r log) {t : Try} (ht : t ∈ log) : t.Sound := by
  intro hsent
  cases hend : t.ending with
  | gaveUp bytes =>
    have hres : t.ending.result = .ok bytes := by rw [hend]; rfl
    obtain ⟨hr, -⟩ := h.of_result ht hsent hres
    exact hrec.parses bytes hr
  | eof bytes =>
    have hres : t.ending.result = .ok bytes := by rw [hend]; rfl
    obtain ⟨hr, hidle⟩ := h.of_result ht hsent hres
    exact ⟨hrec.parses bytes hr, hidle.mp (hrec.dropped t ht bytes ⟨hsent, hend⟩)⟩
  | _ => trivial

/-- **The promise of the retry**, from a log and its result. -/
theorem Decides.recovers_iff {r : Result Bytes} {log : List Try} (h : Decides r log)
    (hjust : ∀ t ∈ log, t.ending.Justified) : Recovers r log ↔ ∀ t ∈ log, t.Sound := by
  refine ⟨fun hrec t ht => hrec.sound h ht, fun hsound => ⟨fun bytes hr => ?_,
    fun i t hi hpooled heof => ?_, fun t ht bytes heof => ?_⟩⟩
  · cases h with
    | failed h => cases hr
    | @served log t conn now _ h hsent hres hleft =>
      cases hr
      have ht : t ∈ log ++ [t] := List.mem_append_right log (List.mem_singleton_self t)
      exact (hsound t ht).parses (t.sent_iff.mpr ⟨⟨conn, hsent.1⟩, hsent.2⟩) (hjust t ht) hres
  · -- no head parses in an empty answer
    have hgood := hsound t (List.mem_of_getElem? hi) heof.1
    rw [heof.2] at hgood
    exact absurd hgood.1 (by decide)
  · have hgood := hsound t ht heof.1
    rw [heof.2] at hgood
    have hres : t.ending.result = .ok bytes := by rw [heof.2]; rfl
    exact (h.of_result ht heof.1 hres).2.mpr hgood.2

namespace Net

/-- The bytes `forward_http1` writes to an upstream. -/
def requestBytes (net : Net) (req : HttpRequest) (body : Bytes) (up : Nat) : Bytes :=
  match upstreamRequest req body (upstreamHost (net.endpoint up)) with
  | .error _ => []
  | .ok bytes => bytes

/-- `forward_http1`, with what the system answers in its two attempts. -/
def forward (net : Net) (req : HttpRequest) (body : Bytes) (up : Nat) (first second : UpstreamIo) :
    Result Bytes × Net :=
  net.forwardHttp1 req body up (first.attempt (net.requestBytes req body up))
    (second.attempt (net.requestBytes req body up))

/-- The attempts of `forward_http1`. -/
def tries (net : Net) (req : HttpRequest) (body : Bytes) (up : Nat) (first second : UpstreamIo) :
    List Try :=
  match upstreamRequest req body (upstreamHost (net.endpoint up)) with
  | .error _ => []
  | .ok bytes =>
    Uproxy.tries bytes 0 [first, second] ⟨net.endpoints, net.pool up, net.outstanding⟩

variable (net : Net) (req : HttpRequest) (body : Bytes) (up : Nat) (first second : UpstreamIo)

theorem forward_decides :
    Decides (net.forward req body up first second).1 (net.tries req body up first second) ∧
      ∀ t ∈ net.tries req body up first second, t.ending.Justified := by
  unfold forward forwardHttp1 requestBytes tries
  cases upstreamRequest req body (upstreamHost (net.endpoint up)) with
  | error e =>
    exact ⟨.failed (List.forall_mem_nil _), List.forall_mem_nil _⟩
  | ok bytes =>
    exact tries_spec bytes [first, second] 0 ⟨net.endpoints, net.pool up, net.outstanding⟩

/-- **Stale and broken connections.** Whatever the pool, the request and the answers of the system:
a call of `forward_http1` returns only responses whose head parses, retries a request on a pooled
connection that ends without a byte, and puts no connection back that has ended, exactly if every
answer it accepts is complete, or parses and, where it ended with the connection, was the last one
the connection may serve. -/
theorem upstream_recovers :
    Recovers (net.forward req body up first second).1 (net.tries req body up first second) ↔
      ∀ t ∈ net.tries req body up first second, t.Sound :=
  (forward_decides net req body up first second).1.recovers_iff
    (forward_decides net req body up first second).2

end Net

/-- A pool with one idle connection. -/
def sampleNet : Net where
  endpoints := [{ addr := ascii "127.0.0.1", port := 80, name := ascii "a" }]
  pools :=
    { cfg := {}
      pools := fun key => if key = ascii "a" then
        some { endpoint := 0, cfg := {}, idle := [{ fd := 5 }], total := 1 } else none }

/-- A request. -/
def samplePost : HttpRequest :=
  { method := ascii "POST", target := ascii "/", version := ascii "HTTP/1.1" }

/-- A socket that takes a request at once. -/
def takesAll : List UpstreamSend := [{ send := .sent 4096 (by decide) }]

/-- An upstream that takes the request and closes the connection. -/
def closesAtOnce : UpstreamIo :=
  { calls := { socket := 6 }, sends := takesAll, turns := [{ recv := .bytes [] }] }

/-- **A stale connection is taken for an empty response**: it is not tried again, and the connection
is idle again. -/
theorem upstream_recovers_stale :
    (sampleNet.forward samplePost [] 0 closesAtOnce closesAtOnce).1 = .ok [] ∧
      (sampleNet.tries samplePost [] 0 closesAtOnce closesAtOnce).length = 1 ∧
      ((sampleNet.forward samplePost [] 0 closesAtOnce closesAtOnce).2.pool 0).idle.length = 1 ∧
      ¬ Recovers (sampleNet.forward samplePost [] 0 closesAtOnce closesAtOnce).1
        (sampleNet.tries samplePost [] 0 closesAtOnce closesAtOnce) := by
  have hres : (sampleNet.forward samplePost [] 0 closesAtOnce closesAtOnce).1 = .ok [] := by
    decide +kernel
  refine ⟨hres, by decide +kernel, by decide +kernel, fun h => ?_⟩
  exact absurd (h.parses [] hres) (by decide)

/-! ## Requests that are sent twice -/

/-- `acquire` returns a connection exactly if the pool serves one. -/
theorem UpstreamPool.acquire_ok_iff (p : UpstreamPool) (eps : List UpstreamEndpoint)
    (c : ConnectCalls) : (∃ conn, (p.acquire eps c).1 = .ok conn) ↔ p.Serves c := by
  unfold UpstreamPool.Serves
  rcases p.acquire_cases eps c with ⟨conn, rest, hidle, heq⟩ | ⟨hidle, hmax, heq⟩ |
    ⟨e, hidle, hlt, hc, heq⟩ | ⟨conn, hidle, hlt, hc, heq⟩ <;> rw [heq]
  · exact iff_of_true ⟨_, rfl⟩ (Or.inl (by simp [hidle]))
  · refine iff_of_false (by simp) ?_
    rintro (h | ⟨h, -⟩)
    · exact h hidle
    · exact UInt32.not_lt.mpr hmax h
  · simp [hidle, hc]
  · exact iff_of_true ⟨_, rfl⟩ (Or.inr ⟨hlt, conn, hc⟩)

/-- The request is written as a whole in both attempts: the first is handed a connection, written
and not answered, and so is the second up to that point. -/
structure Resends (net : Net) (req : HttpRequest) (body : Bytes) (up : Nat)
    (first second : UpstreamIo) : Prop where
  valid      : (upstreamRequest req body (upstreamHost (net.endpoint up))).isOk = true
  served     : (net.pool up).Serves first.calls
  wrote      : (writeAll first.sends (net.requestBytes req body up)).1.isOk = true
  unanswered : (readResponse first.turns).result.isOk = false
  again      : ((net.pool up).acquire net.endpoints first.calls).2.1.Serves second.calls
  rewrote    : (writeAll second.sends (net.requestBytes req body up)).1.isOk = true

/-- The request is written as a whole at most once, and not again behind an answer that failed. -/
structure SentOnce (log : List Try) : Prop where
  once     : log.countP Try.sent ≤ 1
  notAgain : ∀ pre t post, log = pre ++ t :: post → t.sent = true →
    t.ending.result.isOk = false → ∀ u ∈ post, u.sent = false

theorem sentOnce_nil : SentOnce [] :=
  ⟨Nat.zero_le _, fun pre t post h => absurd h.symm (by simp)⟩

theorem sentOnce_singleton (t : Try) : SentOnce [t] := by
  refine ⟨List.countP_le_length, fun pre u post h _ _ => ?_⟩
  have hlen := congrArg List.length h
  rw [List.length_singleton, List.length_append, List.length_cons] at hlen
  rw [List.length_eq_zero_iff.mp (show post.length = 0 by omega)]
  exact List.forall_mem_nil _

theorem sentOnce_pair {t u : Try} :
    SentOnce [t, u] ↔ ¬ (t.sent = true ∧ u.sent = true) := by
  constructor
  · rintro h ⟨h1, h2⟩
    have := h.once
    rw [List.countP_cons, List.countP_cons, h1, h2] at this
    exact absurd this (by decide)
  · intro h
    refine ⟨?_, fun pre v post heq hv _ => ?_⟩
    · rw [List.countP_cons, List.countP_singleton]
      cases h1 : t.sent <;> cases h2 : u.sent <;> simp [h1, h2] at h ⊢
    · cases pre with
      | nil =>
        cases heq
        refine List.forall_mem_singleton.mpr ?_
        by_contra h2
        exact h ⟨hv, by simpa using h2⟩
      | cons w pre =>
        have hlen := congrArg List.length heq
        simp only [List.length_cons, List.length_append, List.length_nil] at hlen
        rw [List.length_eq_zero_iff.mp (show post.length = 0 by omega)]
        exact List.forall_mem_nil _

/-- The second attempt is the last one. -/
theorem tries_last (request : Bytes) (attempt : Nat) (io : UpstreamIo) (rest : List UpstreamIo)
    (x : Exchange) : ∃ t, tries request (attempt + 1) (io :: rest) x = [t] ∧
      t.sent = ((x.pool.acquire x.endpoints io.calls).1.isOk &&
        (writeAll io.sends request).1.isOk) := by
  unfold tries
  rcases x.pool.acquire x.endpoints io.calls with ⟨e | conn, pool, endpoints⟩
  · exact ⟨_, rfl, rfl⟩
  · by_cases hf : (io.attempt request).Failed
    · simp only [if_pos hf, Nat.succ_ne_zero, if_false]
      exact ⟨_, rfl, rfl⟩
    · simp only [if_neg hf]
      exact ⟨_, rfl, rfl⟩

theorem isOk_iff {α : Type} {r : Result α} : r.isOk = true ↔ ∃ a, r = .ok a := by
  cases r <;> simp [Except.isOk, Except.toBool]

/-- An attempt that was written and failed had no answer. -/
theorem Attempt.Failed.unanswered {io : UpstreamIo} {request : Bytes}
    (h : (io.attempt request).Failed) (hw : (writeAll io.sends request).1.isOk = true) :
    (readResponse io.turns).result.isOk = false := by
  rcases h with ⟨e, herr⟩ | ⟨e, herr⟩
  · rw [show (writeAll io.sends request).1 = .error e from herr] at hw
    cases hw
  · rw [show (readResponse io.turns).result = .error e from herr]
    rfl

/-- When the log of two attempts has the request once. -/
theorem tries_sentOnce_iff (request : Bytes) (first second : UpstreamIo) (x : Exchange) :
    SentOnce (tries request 0 [first, second] x) ↔
      ¬ (x.pool.Serves first.calls ∧ (writeAll first.sends request).1.isOk = true ∧
        (readResponse first.turns).result.isOk = false ∧
        (x.pool.acquire x.endpoints first.calls).2.1.Serves second.calls ∧
        (writeAll second.sends request).1.isOk = true) := by
  rw [← UpstreamPool.acquire_ok_iff x.pool x.endpoints]
  unfold tries
  rcases hacq : x.pool.acquire x.endpoints first.calls with ⟨e | conn, pool, endpoints⟩
  · exact iff_of_true (sentOnce_singleton _) (by simp)
  · by_cases hf : (first.attempt request).Failed
    · simp only [if_pos hf, if_true]
      obtain ⟨t, ht, hsent⟩ := tries_last request 0 second []
        (Exchange.dropConn ⟨endpoints, pool, conn :: x.outstanding⟩ (first.attempt request).now)
      -- the pool of the second attempt is the one behind the first `acquire`
      have hserves : (∃ c, (pool.acquire endpoints second.calls).1 = .ok c) ↔
        pool.Serves second.calls := pool.acquire_ok_iff endpoints second.calls
      rw [ht, sentOnce_pair, hsent, Bool.and_eq_true, isOk_iff]
      constructor
      · rintro h ⟨-, hw, -, hserve, hw'⟩
        exact h ⟨hw, hserves.mpr hserve, hw'⟩
      · rintro h ⟨hw, hserve, hw'⟩
        exact h ⟨⟨conn, rfl⟩, hw, hf.unanswered hw, hserves.mp hserve, hw'⟩
    · simp only [if_neg hf]
      refine iff_of_true (sentOnce_singleton _) fun h => ?_
      obtain ⟨bytes, -, hr⟩ := Attempt.not_failed hf
      have hr' : (readResponse first.turns).result = .ok bytes := hr
      rw [hr'] at h
      cases h.2.2.1

/-- **Requests are sent once.** Whatever the request, its method included, the pool and the answers
of the system: a call of `forward_http1` writes the request as a whole at most once, and not again
behind an answer that failed, exactly if it does not resend it. -/
theorem Net.request_sent_once (net : Net) (req : HttpRequest) (body : Bytes) (up : Nat)
    (first second : UpstreamIo) :
    SentOnce (net.tries req body up first second) ↔ ¬ Resends net req body up first second := by
  unfold Net.tries
  cases hreq : upstreamRequest req body (upstreamHost (net.endpoint up)) with
  | error e =>
    refine iff_of_true sentOnce_nil fun h => ?_
    have := h.valid
    rw [hreq] at this
    cases this
  | ok bytes =>
    have hb : net.requestBytes req body up = bytes := by rw [Net.requestBytes, hreq]
    rw [tries_sentOnce_iff]
    refine not_congr ⟨fun ⟨h1, h2, h3, h4, h5⟩ => ?_, fun h => ?_⟩
    · rw [← hb] at h2 h5
      exact ⟨by rw [hreq]; rfl, h1, h2, h3, h4, h5⟩
    · have hw := h.wrote
      have hw' := h.rewrote
      rw [hb] at hw hw'
      exact ⟨h.served, hw, h.unanswered, h.again, hw'⟩

/-- An upstream that takes the request and does not answer in time. -/
def staysSilent : UpstreamIo :=
  { calls := { socket := 6 }, sends := takesAll
    turns := [{ polls := [.timeout], recv := .bytes [] }] }

/-- **A `POST` that is not answered in time is sent again.** -/
theorem request_sent_once_post :
    samplePost.method = ascii "POST" ∧
      (sampleNet.tries samplePost [] 0 staysSilent staysSilent).countP Try.sent = 2 ∧
      (sampleNet.forward samplePost [] 0 staysSilent staysSilent).1.isOk = false ∧
      ¬ SentOnce (sampleNet.tries samplePost [] 0 staysSilent staysSilent) := by
  have hcount : (sampleNet.tries samplePost [] 0 staysSilent staysSilent).countP Try.sent = 2 := by
    decide +kernel
  refine ⟨rfl, hcount, by decide +kernel, fun h => ?_⟩
  exact absurd h.once (by rw [hcount]; decide)

end Uproxy
