import Uproxy.Proxy.Client

/-!
# The output of a client connection (`flush_tls_ciphertext`, `write_client_output`)

On a cleartext connection the bytes of `wbuf` go to the socket. On a TLS connection they go to the
TLS engine, and what the engine makes of them is drained in chunks and goes to the socket; the rest
of a chunk the socket does not take at once is kept in `tls_pending` and goes first the next time.

The engine is a byte stream at either end (`TlsConn`): `write` takes bytes from the front of what it
is given, `take_encrypted` gives bytes from the front of the ciphertext, and ciphertext is made at
any time, also of none of the plaintext (a handshake). How much is taken or made is an input, as is
what `send` answers; where the answers end, nothing more is accepted.

* `sendLoop` is the loop around `send` that occurs twice in `flush_tls_ciphertext`;
* `flush_intact` and `write_intact` say what one call preserves, unless it fails for good;
* **`client_output_intact`**: along every run of appends, writes and flushes, what the socket has
  accepted and what is still on its way are the bytes produced so far, in order.

`write_none` connects this model with that of `Proxy/Client.lean`, which is about cleartext
connections only.
-/

namespace Uproxy

open Lib.Run

/-! ## The code -/

/-- The TLS engine. `produced` and `written` are its history: all ciphertext made, and all plaintext
taken. -/
structure TlsConn where
  output   : Bytes := []
  produced : Bytes := []
  written  : Bytes := []
  deriving DecidableEq, Repr

/-- What `TLSConn::write` does: it takes some bytes, or none and returns an error. Either way it may
make ciphertext. -/
inductive TlsWrite where
  | accepts (n : Nat) (cipher : Bytes)
  | refuses (e : Error) (cipher : Bytes)
  deriving DecidableEq, Repr

/-- What `TLSConn::take_encrypted` does: it gives so many bytes at most, or an error. -/
inductive TlsTake where
  | gives (n : Nat)
  | fails (e : Error)
  deriving DecidableEq, Repr

namespace TlsConn

/-- The engine makes some ciphertext. -/
def emit (c : TlsConn) (cipher : Bytes) : TlsConn :=
  { c with output := c.output ++ cipher, produced := c.produced ++ cipher }

/-- `TLSConn::write`. -/
def write (c : TlsConn) (data : Bytes) : TlsWrite → Result Nat × TlsConn
  | .accepts n cipher =>
    (.ok (min n data.length), { c.emit cipher with written := c.written ++ data.take n })
  | .refuses e cipher => (.error e, c.emit cipher)

/-- `TLSConn::take_encrypted`, with the size of the buffer handed to it. -/
def takeEncrypted (c : TlsConn) (size : Nat) : TlsTake → Result Bytes × TlsConn
  | .gives n =>
    (.ok (c.output.take (min n size)), { c with output := c.output.drop (min n size) })
  | .fails e => (.error e, c)

end TlsConn

/-- How a loop around `send` ends. -/
inductive SendEnd where
  | done
  | blocked
  | failed (errno : Int)
  deriving DecidableEq, Repr

/-- A loop around `send`: its end, the bytes the socket has accepted and those that are left. -/
structure Sending where
  ending   : SendEnd
  accepted : Bytes
  left     : Bytes
  deriving DecidableEq, Repr

/-- The loop that sends some bytes. -/
def sendLoop : List Send → Bytes → Sending
  | _, [] => ⟨.done, [], []⟩
  | [], bytes => ⟨.blocked, [], bytes⟩
  | .sent n _ :: ss, bytes =>
    let r := sendLoop ss (bytes.drop n)
    { r with accepted := bytes.take n ++ r.accepted }
  | .interrupted :: ss, bytes => sendLoop ss bytes
  | .wouldBlock :: _, bytes => ⟨.blocked, [], bytes⟩
  | .failed errno :: _, bytes => ⟨.failed errno, [], bytes⟩

/-- The members of `ClientConn` the output passes through, and the bytes its socket has accepted. -/
structure ClientOutput where
  tlsConn    : Option TlsConn
  wbuf       : Bytes := []
  tlsPending : Bytes := []
  sent       : Bytes := []
  deriving DecidableEq, Repr

/-- What happens during a flush: the answers of `send` for `tls_pending`, and for each chunk that is
taken from the engine. -/
structure FlushIo where
  pending : List Send := []
  chunks  : List (TlsTake × List Send) := []
  deriving DecidableEq, Repr

/-- What happens in one turn of `write_client_output`: the answer of `send` on a cleartext
connection, and of the engine with the flush behind it on the other ones. -/
structure WriteTurn where
  send  : Send := .wouldBlock
  write : TlsWrite := .refuses (.fromCode .wouldBlock "SSL_write would block") []
  flush : FlushIo := {}
  deriving DecidableEq, Repr

namespace ClientOutput

/-- The size of the buffer chunks are taken into. -/
def chunkBytes : Nat := 8192

/-- The loop over the chunks of ciphertext. -/
def flushChunks : List (TlsTake × List Send) → TlsConn → ClientOutput → Result Unit × ClientOutput
  | [], c, o => (.ok (), { o with tlsConn := some c })
  | (t, sends) :: rest, c, o =>
    match c.takeEncrypted chunkBytes t with
    | (.error e, c) => (.error e, { o with tlsConn := some c })
    | (.ok chunk, c) =>
      if chunk = [] then (.ok (), { o with tlsConn := some c })
      else
        let r := sendLoop sends chunk
        let o := { o with tlsConn := some c, sent := o.sent ++ r.accepted }
        match r.ending with
        | .done => flushChunks rest c o
        | .blocked =>
          (.error (.fromCode .wouldBlock "tls write"),
            { o with tlsPending := o.tlsPending ++ r.left })
        | .failed errno => (.error (.fromErrno errno "tls write"), o)

/-- `flush_tls_ciphertext`. -/
def flushTlsCiphertext (o : ClientOutput) (io : FlushIo) : Result Unit × ClientOutput :=
  match o.tlsConn with
  | none => (.ok (), o)
  | some c =>
    let r := sendLoop io.pending o.tlsPending
    let o := { o with tlsPending := r.left, sent := o.sent ++ r.accepted }
    match r.ending with
    | .done => flushChunks io.chunks c o
    | .blocked => (.error (.fromCode .wouldBlock "tls write"), o)
    | .failed errno => (.error (.fromErrno errno "tls write"), o)

/-- One turn of the loop in `write_client_output`: what it returns, if it does. -/
def writeTurn (o : ClientOutput) (t : WriteTurn) : Option (Result Unit) × ClientOutput :=
  match o.tlsConn with
  | none =>
    match t.send with
    | .sent n _ => (none, { o with wbuf := o.wbuf.drop n, sent := o.sent ++ o.wbuf.take n })
    | .interrupted => (none, o)
    | .wouldBlock => (some (.error (.fromCode .wouldBlock "write client")), o)
    | .failed errno => (some (.error (.fromErrno errno "write client")), o)
  | some c =>
    match c.write o.wbuf t.write with
    | (.error e, c) =>
      let o := { o with tlsConn := some c }
      if isWouldBlock e then
        match o.flushTlsCiphertext t.flush with
        | (.error e, o) =>
          if ¬ isWouldBlock e then (some (.error e), o)
          else (some (.error (.fromCode .wouldBlock "tls write pending")), o)
        | (.ok (), o) => (some (.error (.fromCode .wouldBlock "tls write pending")), o)
      else (some (.error e), o)
    | (.ok n, c) =>
      match { o with tlsConn := some c, wbuf := o.wbuf.drop n }.flushTlsCiphertext t.flush with
      | (.error e, o) => (some (.error e), o)
      | (.ok (), o) => (none, o)

/-- `write_client_output`; `last` is what happens during the flush at its end. -/
def writeClientOutput (last : FlushIo) : List WriteTurn → ClientOutput → Result Unit × ClientOutput
  | [], o =>
    if o.wbuf = [] then o.flushTlsCiphertext last
    else (.error (.fromCode .wouldBlock
      (if o.tlsConn.isSome then "tls write pending" else "write client")), o)
  | t :: turns, o =>
    if o.wbuf = [] then o.flushTlsCiphertext last
    else
      match o.writeTurn t with
      | (some r, o) => (r, o)
      | (none, o) => writeClientOutput last turns o

/-- A connection that is new. -/
def new (tls : Bool) : ClientOutput := { tlsConn := if tls then some {} else none }

end ClientOutput

/-- What happens to the output of a connection: bytes are appended to `wbuf`, or one of the two
functions is called, or the engine makes ciphertext of its own. -/
inductive OutputOp where
  | append (d : Bytes)
  | write (turns : List WriteTurn) (last : FlushIo)
  | flush (io : FlushIo)
  | engine (cipher : Bytes)
  deriving DecidableEq, Repr

/-- The result is no error, or the one that says to try again. -/
def goesOn : Result Unit → Bool
  | .ok () => true
  | .error e => isWouldBlock e

namespace ClientOutput

/-- One step; there is none behind a hard error. -/
def step (o : ClientOutput) : OutputOp → Option ClientOutput
  | .append d => some { o with wbuf := o.wbuf ++ d }
  | .write turns last =>
    let r := o.writeClientOutput last turns
    if goesOn r.1 then some r.2 else none
  | .flush io =>
    let r := o.flushTlsCiphertext io
    if goesOn r.1 then some r.2 else none
  | .engine cipher => some { o with tlsConn := o.tlsConn.map fun c => c.emit cipher }

end ClientOutput

/-- All bytes appended to `wbuf`. -/
def appended (ops : List OutputOp) : Bytes :=
  ops.flatMap fun
    | .append d => d
    | _ => []

theorem appended_cons (op : OutputOp) (ops : List OutputOp) :
    appended (op :: ops) = appended [op] ++ appended ops := by
  simp [appended]

/-! ## One call -/

theorem sendLoop_split : ∀ (ss : List Send) (bytes : Bytes),
    (sendLoop ss bytes).accepted ++ (sendLoop ss bytes).left = bytes ∧
      ((sendLoop ss bytes).ending = .done → (sendLoop ss bytes).left = [])
  | _, [] => by
    rw [sendLoop]
    exact ⟨rfl, fun _ => rfl⟩
  | [], b :: bytes => ⟨rfl, fun h => by cases h⟩
  | .sent n _ :: ss, b :: bytes => by
    obtain ⟨ih, hdone⟩ := sendLoop_split ss ((b :: bytes).drop n)
    refine ⟨?_, hdone⟩
    simp only [sendLoop]
    rw [List.append_assoc, ih, List.take_append_drop]
  | .interrupted :: ss, b :: bytes => sendLoop_split ss (b :: bytes)
  | .wouldBlock :: _, b :: bytes => ⟨rfl, fun h => by cases h⟩
  | .failed _ :: _, b :: bytes => ⟨rfl, fun h => by cases h⟩

namespace TlsConn

theorem emit_nil (c : TlsConn) : c.emit [] = c := by
  simp [emit]

theorem emit_emit (c : TlsConn) (d d' : Bytes) : (c.emit d).emit d' = c.emit (d ++ d') := by
  simp [emit]

theorem write_ok {c c' : TlsConn} {data : Bytes} {w : TlsWrite} {n : Nat}
    (h : c.write data w = (.ok n, c')) :
    ∃ cipher, c' = { c.emit cipher with written := c.written ++ data.take n } := by
  cases w with
  | refuses e cipher => cases h
  | accepts m cipher =>
    cases h
    rw [← List.take_eq_take_min]
    exact ⟨cipher, rfl⟩

theorem write_error {c c' : TlsConn} {data : Bytes} {w : TlsWrite} {e : Error}
    (h : c.write data w = (.error e, c')) : ∃ cipher, c' = c.emit cipher := by
  cases w with
  | refuses e' cipher =>
    cases h
    exact ⟨cipher, rfl⟩
  | accepts m cipher => cases h

/-- What is taken is the front of the output. -/
theorem takeEncrypted_ok {c c' : TlsConn} {size : Nat} {t : TlsTake} {chunk : Bytes}
    (h : c.takeEncrypted size t = (.ok chunk, c')) :
    c = { c' with output := chunk ++ c'.output } := by
  cases t with
  | fails e => cases h
  | gives n =>
    cases h
    simp only [List.take_append_drop]

theorem takeEncrypted_error {c c' : TlsConn} {size : Nat} {t : TlsTake} {e : Error}
    (h : c.takeEncrypted size t = (.error e, c')) : c' = c := by
  cases t with
  | fails e' => cases h; rfl
  | gives n => cases h

end TlsConn

namespace ClientOutput

/-- **The output is intact**: what the socket has accepted and what is on its way are the bytes made
so far, in order; `bytes` are those appended to `wbuf`. The connection is a cleartext one or not. -/
inductive Intact (bytes : Bytes) : Bool → ClientOutput → Prop where
  | clear {wbuf pending sent : Bytes} (h : sent ++ wbuf = bytes) :
      Intact bytes false ⟨none, wbuf, pending, sent⟩
  | tls {c : TlsConn} {wbuf pending sent : Bytes}
      (hcipher : sent ++ pending ++ c.output = c.produced) (hplain : c.written ++ wbuf = bytes) :
      Intact bytes true ⟨some c, wbuf, pending, sent⟩

theorem flushChunks_intact {bytes wbuf : Bytes} : ∀ (chunks : List (TlsTake × List Send))
    (c : TlsConn) (tls : Option TlsConn) (sent : Bytes), sent ++ c.output = c.produced →
    c.written ++ wbuf = bytes → goesOn (flushChunks chunks c ⟨tls, wbuf, [], sent⟩).1 = true →
    Intact bytes true (flushChunks chunks c ⟨tls, wbuf, [], sent⟩).2
  | [], c, tls, sent, hcipher, hplain, _ => .tls (by rwa [List.append_nil]) hplain
  | (t, sends) :: rest, c, tls, sent, hcipher, hplain, hg => by
    rw [flushChunks] at hg ⊢
    rcases htake : c.takeEncrypted chunkBytes t with ⟨e | chunk, c'⟩ <;> rw [htake] at hg <;>
      simp only at hg ⊢
    · rw [TlsConn.takeEncrypted_error htake]
      exact .tls (by rwa [List.append_nil]) hplain
    · obtain ⟨hsplit, hdone⟩ := sendLoop_split sends chunk
      rw [TlsConn.takeEncrypted_ok htake] at hcipher hplain
      simp only at hcipher hplain
      by_cases hnil : chunk = []
      · rw [if_pos hnil]
        rw [hnil, List.nil_append] at hcipher
        exact .tls (by rwa [List.append_nil]) hplain
      · rw [if_neg hnil] at hg ⊢
        rw [← hsplit, List.append_assoc, ← List.append_assoc] at hcipher
        cases hend : (sendLoop sends chunk).ending with
        | done =>
          rw [hend] at hg
          rw [hdone hend, List.nil_append] at hcipher
          exact flushChunks_intact rest c' _ _ hcipher hplain hg
        | blocked => exact .tls (by rwa [List.nil_append, List.append_assoc]) hplain
        | failed errno =>
          rw [hend] at hg
          cases hg

/-- **A flush** keeps the output intact, unless it fails for good. -/
theorem flush_intact {bytes : Bytes} {tls : Bool} {o o' : ClientOutput} {io : FlushIo}
    {r : Result Unit} (h : Intact bytes tls o) (hf : o.flushTlsCiphertext io = (r, o'))
    (hg : goesOn r = true) : Intact bytes tls o' := by
  cases h with
  | clear h =>
    cases hf
    exact .clear h
  | @tls c wbuf pending sent hcipher hplain =>
    unfold flushTlsCiphertext at hf
    simp only at hf
    obtain ⟨hsplit, hdone⟩ := sendLoop_split io.pending pending
    rw [← hsplit, ← List.append_assoc] at hcipher
    cases hend : (sendLoop io.pending pending).ending with
    | done =>
      rw [hend, hdone hend] at hf
      rw [hdone hend, List.append_nil] at hcipher
      have hchunks := flushChunks_intact io.chunks c (some c) _ hcipher hplain
      simp only at hf
      rw [hf] at hchunks
      exact hchunks hg
    | blocked =>
      rw [hend] at hf
      cases hf
      exact .tls hcipher hplain
    | failed errno =>
      rw [hend] at hf
      cases hf
      cases hg

section Turn

variable {bytes wbuf pending sent : Bytes} {c : TlsConn}

/-- The engine makes ciphertext. -/
theorem emit_intact (h : Intact bytes true ⟨some c, wbuf, pending, sent⟩) (cipher : Bytes) :
    Intact bytes true ⟨some (c.emit cipher), wbuf, pending, sent⟩ := by
  cases h with
  | tls hcipher hplain =>
    refine .tls ?_ hplain
    rw [show (c.emit cipher).output = c.output ++ cipher from rfl, ← List.append_assoc, hcipher]
    rfl

/-- It takes plaintext. -/
theorem taken_intact (h : Intact bytes true ⟨some c, wbuf, pending, sent⟩) (n : Nat) :
    Intact bytes true
      ⟨some { c with written := c.written ++ wbuf.take n }, wbuf.drop n, pending, sent⟩ := by
  cases h with
  | tls hcipher hplain =>
    refine .tls hcipher ?_
    rwa [List.append_assoc, List.take_append_drop]

theorem writeTurn_clear (h : sent ++ wbuf = bytes) (t : WriteTurn) :
    Intact bytes false (writeTurn ⟨none, wbuf, pending, sent⟩ t).2 := by
  unfold writeTurn
  simp only
  cases t.send with
  | sent n pos => exact .clear (by rwa [List.append_assoc, List.take_append_drop])
  | interrupted => exact .clear h
  | wouldBlock => exact .clear h
  | failed errno => exact .clear h

theorem writeTurn_tls (h : Intact bytes true ⟨some c, wbuf, pending, sent⟩) {t : WriteTurn}
    (hg : ∀ r, (writeTurn ⟨some c, wbuf, pending, sent⟩ t).1 = some r → goesOn r = true) :
    Intact bytes true (writeTurn ⟨some c, wbuf, pending, sent⟩ t).2 := by
  unfold writeTurn at hg ⊢
  simp only at hg ⊢
  rcases hwrite : c.write wbuf t.write with ⟨e | n, c'⟩ <;> rw [hwrite] at hg <;>
    simp only at hg ⊢
  · obtain ⟨cipher, rfl⟩ := TlsConn.write_error hwrite
    have h' := emit_intact h cipher
    split_ifs at hg ⊢ with he
    · rcases hf : flushTlsCiphertext ⟨some (c.emit cipher), wbuf, pending, sent⟩ t.flush with
        ⟨e' | ⟨⟩, o'⟩ <;> rw [hf] at hg <;> simp only at hg ⊢
      · split_ifs at hg ⊢ with he'
        · exact flush_intact h' hf he'
        · exact flush_intact h' hf (hg _ rfl)
      · exact flush_intact h' hf rfl
    · exact absurd (hg _ rfl) he
  · obtain ⟨cipher, rfl⟩ := TlsConn.write_ok hwrite
    have h' := taken_intact (emit_intact h cipher) n
    rcases hf : flushTlsCiphertext _ t.flush with ⟨e' | ⟨⟩, o'⟩ <;> rw [hf] at hg <;>
      simp only at hg ⊢
    · exact flush_intact h' hf (hg _ rfl)
    · exact flush_intact h' hf rfl

end Turn

/-- **One turn** keeps the output intact, unless it fails for good. -/
theorem writeTurn_intact {bytes : Bytes} {tls : Bool} {o : ClientOutput} (h : Intact bytes tls o)
    {t : WriteTurn} (hg : ∀ r, (o.writeTurn t).1 = some r → goesOn r = true) :
    Intact bytes tls (o.writeTurn t).2 := by
  cases h with
  | clear h => exact writeTurn_clear h t
  | tls hcipher hplain => exact writeTurn_tls (.tls hcipher hplain) hg

/-- **A write** keeps the output intact, unless it fails for good. -/
theorem write_intact {bytes : Bytes} {tls : Bool} {last : FlushIo} : ∀ (turns : List WriteTurn)
    {o : ClientOutput}, Intact bytes tls o → goesOn (o.writeClientOutput last turns).1 = true →
      Intact bytes tls (o.writeClientOutput last turns).2
  | [], o, h, hg => by
    unfold writeClientOutput at hg ⊢
    by_cases hw : o.wbuf = []
    · rw [if_pos hw] at hg ⊢
      exact flush_intact h rfl hg
    · rw [if_neg hw]
      exact h
  | t :: turns, o, h, hg => by
    unfold writeClientOutput at hg ⊢
    split_ifs at hg ⊢
    · exact flush_intact h rfl hg
    · have hturn := writeTurn_intact h (t := t)
      rcases ht : o.writeTurn t with ⟨_ | r, o'⟩ <;> rw [ht] at hg hturn <;> simp only at hg ⊢
      · exact write_intact turns (hturn fun r hr => by cases hr) hg
      · exact hturn fun r' hr => by cases hr; exact hg

theorem append_intact {bytes : Bytes} {tls : Bool} {o : ClientOutput} (h : Intact bytes tls o)
    (d : Bytes) : Intact (bytes ++ d) tls { o with wbuf := o.wbuf ++ d } := by
  cases h with
  | clear h => exact .clear (by rw [← List.append_assoc, h])
  | tls hcipher hplain => exact .tls hcipher (by rw [← List.append_assoc, hplain])

/-- **One step** keeps the output intact. -/
theorem step_intact {bytes : Bytes} {tls : Bool} {o o' : ClientOutput} (h : Intact bytes tls o)
    {op : OutputOp} (hs : o.step op = some o') : Intact (bytes ++ appended [op]) tls o' := by
  cases op with
  | append d =>
    cases hs
    rw [show appended [.append d] = d from List.append_nil d]
    exact append_intact h d
  | write turns last =>
    obtain ⟨hg, ho⟩ := Option.ite_none_right_eq_some.mp hs
    cases ho
    rw [show appended [.write turns last] = [] from rfl, List.append_nil]
    exact write_intact turns h hg
  | flush io =>
    obtain ⟨hg, ho⟩ := Option.ite_none_right_eq_some.mp hs
    cases ho
    rw [show appended [.flush io] = [] from rfl, List.append_nil]
    exact flush_intact h rfl hg
  | engine cipher =>
    cases hs
    rw [show appended [.engine cipher] = [] from rfl, List.append_nil]
    cases h with
    | clear h => exact .clear h
    | tls hcipher hplain => exact emit_intact (.tls hcipher hplain) cipher

/-! ## Runs -/

/-- **A run** keeps the output intact. -/
theorem run_intact {tls : Bool} : ∀ (ops : List OutputOp) {bytes : Bytes} {o o' : ClientOutput},
    Intact bytes tls o → runM step o ops = some o' → Intact (bytes ++ appended ops) tls o'
  | [], bytes, o, o', h, hr => by
    cases hr
    rw [show appended [] = [] from rfl, List.append_nil]
    exact h
  | op :: ops, bytes, o, o', h, hr => by
    obtain ⟨o₁, hs, hr⟩ := Option.bind_eq_some_iff.mp hr
    have := run_intact ops (step_intact h hs) hr
    rwa [List.append_assoc, ← appended_cons] at this

theorem new_intact : ∀ tls, Intact [] tls (new tls)
  | false => .clear rfl
  | true => .tls rfl rfl

/-- **Nothing is lost, doubled or reordered on the way out.** For every interleaving of appends to
`wbuf` with calls of `write_client_output` and `flush_tls_ciphertext`, whatever `send` and the TLS
engine answer, as long as there is no hard error: on a cleartext connection what the socket has
accepted and `wbuf` are all bytes appended; on a TLS connection what the socket has accepted,
`tls_pending` and the output of the engine are all ciphertext produced, and what the engine was
handed and `wbuf` are all bytes appended. -/
theorem client_output_intact (tls : Bool) (ops : List OutputOp) (o : ClientOutput)
    (h : runM step (new tls) ops = some o) :
    (tls = false → o.tlsConn = none ∧ o.sent ++ o.wbuf = appended ops) ∧
      (tls = true → ∃ c, o.tlsConn = some c ∧
        o.sent ++ o.tlsPending ++ c.output = c.produced ∧ c.written ++ o.wbuf = appended ops) := by
  have hi := run_intact ops (new_intact tls) h
  rw [List.nil_append] at hi
  cases hi with
  | clear hclear => exact ⟨fun _ => ⟨rfl, hclear⟩, fun ht => by cases ht⟩
  | tls hcipher hplain => exact ⟨fun ht => (by cases ht), fun _ => ⟨_, rfl, hcipher, hplain⟩⟩

/-- A response is encrypted, the socket takes one byte of the ciphertext, and the rest goes out with
the next flush. -/
def sampleOps : List OutputOp :=
  [.append (ascii "hi"),
    .write [{ write := .accepts 1 [23, 3, 3]
              flush := { chunks := [(.gives 2, [.sent 1 (by decide), .wouldBlock])] } }] {},
    .flush { pending := [.interrupted, .sent 1 (by decide)] }]

/-- The byte that was kept back went first: one byte of the ciphertext is still in the engine, and
one of the plaintext in `wbuf`. -/
theorem client_output_intact_blocked :
    ∃ o c, runM step (new true) sampleOps = some o ∧ o.tlsConn = some c ∧
      o.sent = [23, 3] ∧ c.output = [3] ∧ o.wbuf = ascii "i" ∧
      o.sent ++ o.tlsPending ++ c.output = c.produced ∧
      c.written ++ o.wbuf = appended sampleOps := by
  obtain ⟨o, ho⟩ := Option.isSome_iff_exists.mp
    (show (runM step (new true) sampleOps).isSome = true by decide)
  obtain ⟨c, hc, hcipher, hplain⟩ := (client_output_intact true sampleOps o ho).2 rfl
  have hval : runM step (new true) sampleOps =
      some ⟨some ⟨[3], [23, 3, 3], ascii "h"⟩, ascii "i", [], [23, 3]⟩ := by decide
  cases ho.symm.trans hval
  cases hc
  exact ⟨_, _, hval, rfl, rfl, rfl, rfl, hcipher, hplain⟩

/-! ## Cleartext connections -/

/-- On a cleartext connection this is the function of `Proxy/Client.lean`: only the answers of
`send` count. -/
theorem write_none (last : FlushIo) : ∀ (turns : List WriteTurn) (wbuf pending sent : Bytes),
    let r := writeClientOutput last turns ⟨none, wbuf, pending, sent⟩
    (r.1, r.2.wbuf) = Uproxy.writeClientOutput (turns.map WriteTurn.send) wbuf ∧
      r.2.tlsConn = none ∧ r.2.tlsPending = pending
  | [], [], _, _ => ⟨rfl, rfl, rfl⟩
  | _ :: _, [], _, _ => ⟨rfl, rfl, rfl⟩
  | [], _ :: _, _, _ => ⟨rfl, rfl, rfl⟩
  | t :: turns, b :: wbuf, pending, sent => by
    have hne : ¬ (b :: wbuf = []) := List.cons_ne_nil b wbuf
    simp only [writeClientOutput, hne, if_false, writeTurn, List.map_cons]
    cases t.send with
    | sent n pos => exact write_none last turns ((b :: wbuf).drop n) pending _
    | interrupted => exact write_none last turns (b :: wbuf) pending sent
    | wouldBlock => exact ⟨rfl, rfl, rfl⟩
    | failed errno => exact ⟨rfl, rfl, rfl⟩

end ClientOutput

/-- The bytes the socket accepts at an event. -/
def ClientConn.sentAt (s : ProxyServer) (conn : ClientConn) (ev : ClientEvent) : Bytes :=
  if ev.hangUp ∨ ev.error then []
  else
    match (if ev.read then onRead s conn ev else (.proceed conn, s, [])).1 with
    | .proceed conn => if ev.write then (sendLoop ev.sends conn.wbuf).accepted else []
    | _ => []

/-- The bytes accepted in a run. -/
def sentIn : Option ClientConn → List Meeting → Bytes :=
  smallSteps meet fun c m => (c.map fun conn => conn.sentAt m.server m.event).getD []

theorem sentIn_concat (c : Option ClientConn) (ms : List Meeting) (m : Meeting) :
    sentIn c (ms ++ [m]) = sentIn c ms ++
      ((run meet c ms).map fun conn => conn.sentAt m.server m.event).getD [] :=
  smallSteps_concat m c ms

theorem writeClientOutput_left : ∀ (sends : List Send) (wbuf : Bytes),
    (writeClientOutput sends wbuf).2 = (sendLoop sends wbuf).left
  | _, [] => by simp [writeClientOutput, sendLoop]
  | [], _ :: _ => rfl
  | .sent n _ :: ss, b :: wbuf => writeClientOutput_left ss ((b :: wbuf).drop n)
  | .interrupted :: ss, b :: wbuf => writeClientOutput_left ss (b :: wbuf)
  | .wouldBlock :: _, _ :: _ => rfl
  | .failed _ :: _, _ :: _ => rfl

theorem onWrite_wbuf {conn conn' : ClientConn} {sends : List Send}
    (h : onWrite conn sends = some conn') :
    conn' = { conn with wbuf := (sendLoop sends conn.wbuf).left } := by
  rw [← writeClientOutput_left]
  unfold onWrite at h
  generalize writeClientOutput sends conn.wbuf = r at h ⊢
  obtain ⟨e | _, wbuf⟩ := r
  all_goals
    simp only at h
    split_ifs at h
    cases h
    rfl

/-- The branch for writing sends bytes from the front of the write buffer. -/
theorem write_front (conn : ClientConn) (write : Bool) (sends : List Send) :
    (if write then (sendLoop sends conn.wbuf).accepted else []) <+: conn.wbuf ∧
    ∀ conn', (if write then onWrite conn sends else some conn) = some conn' →
      ∃ wbuf, conn' = { conn with wbuf } ∧
      conn.wbuf = (if write then (sendLoop sends conn.wbuf).accepted else []) ++ wbuf := by
  have hsplit := (sendLoop_split sends conn.wbuf).1
  split_ifs with hw
  · exact ⟨⟨_, hsplit⟩, fun conn' h => ⟨_, onWrite_wbuf h, hsplit.symm⟩⟩
  · refine ⟨List.nil_prefix, fun conn' h => ⟨conn.wbuf, ?_, rfl⟩⟩
    cases h
    rfl

end Uproxy
