import Uproxy.Proxy.TlsClient

/-!
# Output and edge-triggered events

epoll is used edge-triggered: that a socket has room is reported once, when it comes to have room or
when the interest list is changed, and not again because nobody has written. So output waits for a
report that is due, or for one that never comes. `Watched` keeps beside a connection what the kernel
knows of it: whether it is to report room (`write`), and whether it still owes a report (`due`).

* a call of `modify` that asks for writes makes a report due;
* so does a `send` that finds no room, as long as writes are asked for;
* an event that says there is room is the report.

**`output_due_iff`**: output always has a report due exactly if no event is of one of three kinds
(`Strands`): it says there is room, and the branch for reading ends without writing and without a
call of `modify` (`Swallowed`); the TLS engine does not take the output though the socket has room
(`Refused`); ciphertext is left while writes are not asked for (`Unwatched`). The first occurs on
any connection over HTTP/2 whose client sends a frame that needs no answer while a response is
waiting, and over HTTP/1 when the next request is there without its body (`output_due_pipelined`).
-/

namespace Uproxy

open Lib.Run

/-- A connection, whether it is registered for writes, and whether a report of room is due. -/
structure Watched where
  conn      : Conn
  write     : Bool := false
  due       : Bool := false
  due_write : due = true → write = true

/-- Ciphertext is waiting for room. -/
def Conn.Full (conn : Conn) : Prop := conn.tls.isSome = true ∧ conn.tlsPending ≠ []

instance instDecidableFull (conn : Conn) : Decidable conn.Full :=
  inferInstanceAs (Decidable (_ ∧ _))

/-- The connection has output. -/
def Conn.HasOutput (conn : Conn) : Prop := conn.wbuf ≠ [] ∨ conn.Full

/-- Whether writes are asked for behind an event. -/
def Handled.asksWrite (r : Handled) (before : Bool) : Bool :=
  (r.modifies.getLast?.map Event.write).getD before

namespace Watched

/-- An event, with what becomes of the reports. A cleartext connection that has written and still
has output has met a full socket; a TLS connection has if ciphertext is left, since every event
tries to send it. -/
def handled (w : Watched) (ev : Event) (r : Handled) (conn : Conn) : Watched where
  conn
  write := r.asksWrite w.write
  due := r.asksWrite w.write &&
    (!r.modifies.isEmpty || decide (r.wrote = true ∧ conn.tls = none ∧ conn.wbuf ≠ []) ||
      decide conn.Full || (w.due && !ev.write))
  due_write := fun h => (Bool.and_eq_true_iff.mp h).1

/-- A connection that meets an event. -/
def attend (c : Option Watched) (m : ConnMeeting) : Option Watched :=
  c.bind fun w =>
    let r := w.conn.onClientEvent m.server m.event m.io
    r.conn.map fun conn => w.handled m.event r conn

/-- A connection that is new. -/
def accepted (tls : Bool) : Watched :=
  { conn := Conn.accepted tls, due_write := fun h => by cases h }

/-- The connection itself is the one of `Proxy/Connection.lean`. -/
theorem attend_conn (ms : List ConnMeeting) (c : Option Watched) :
    (run attend c ms).map Watched.conn = run Conn.meet (c.map Watched.conn) ms := by
  induction ms generalizing c with
  | nil => rfl
  | cons m ms ih =>
    rw [show run attend c (m :: ms) = run attend (attend c m) ms from rfl, ih]
    refine congrArg (fun c => run Conn.meet c ms) ?_
    cases c with
    | none => rfl
    | some w =>
      rw [Option.map_some, Conn.meet_some]
      simp only [attend, Option.bind_some, Option.map_map]
      cases (w.conn.onClientEvent m.server m.event m.io).conn <;> rfl

/-- The event says there is room, and nothing comes of it. -/
def Swallowed (ev : Event) (r : Handled) (conn : Conn) : Prop :=
  ev.write = true ∧ r.wrote = false ∧ r.modifies = [] ∧ conn.wbuf ≠ [] ∧ ¬ conn.Full

/-- The TLS engine does not take the output, and the socket is not the reason. -/
def Refused (r : Handled) (conn : Conn) : Prop :=
  r.wrote = true ∧ conn.tls.isSome = true ∧ r.modifies = [] ∧ conn.wbuf ≠ [] ∧ ¬ conn.Full

/-- Ciphertext is left, and room is not asked for. -/
def Unwatched (w : Watched) (r : Handled) (conn : Conn) : Prop :=
  conn.Full ∧ r.asksWrite w.write = false

/-- **The event leaves output for which no report is due.** -/
def Strands (c : Option Watched) (m : ConnMeeting) : Prop :=
  ∃ w conn, c = some w ∧ (w.conn.onClientEvent m.server m.event m.io).conn = some conn ∧
    (Swallowed m.event (w.conn.onClientEvent m.server m.event m.io) conn ∨
      Refused (w.conn.onClientEvent m.server m.event m.io) conn ∨
      Unwatched w (w.conn.onClientEvent m.server m.event m.io) conn)

/-- A report is due for the output there is. -/
def Due (c : Option Watched) : Prop := ∀ w, c = some w → w.conn.HasOutput → w.due = true

/-- Output is written only if there is room. -/
theorem wrote_write {conn : Conn} {s : ProxyServer} {ev : Event} {io : ConnIo}
    (h : (conn.onClientEvent s ev io).wrote = true) : ev.write = true := by
  have hfinish : ∀ {conn : Conn} {s : ProxyServer} {ts : List Taken} {ms : List Event},
      (conn.finish s ev io ts ms).wrote = true → ev.write = true := by
    intro conn s ts ms h
    unfold Conn.finish at h
    split_ifs at h with hw
    · exact hw
  rcases conn.onClientEvent_cases s ev io with he | ⟨t, -, -, he⟩ | he <;> rw [he] at h
  · cases h
  · have hnot : (conn.onHandshake t s ev io).wrote = false := by
      unfold Conn.onHandshake
      repeat' split
      all_goals rfl
    rw [hnot] at h
    cases h
  · unfold Conn.onRequest at h
    split_ifs at h
    · split at h
      · cases h
      · cases h
      · split at h
        · cases h
        · cases h
        · exact hfinish h
    · exact hfinish h

/-- **One event** keeps a report due for the output, unless it strands it. -/
theorem due_handled {w : Watched} (hw : w.conn.HasOutput → w.due = true) {m : ConnMeeting}
    {conn : Conn} (hc : (w.conn.onClientEvent m.server m.event m.io).conn = some conn) :
    (conn.HasOutput →
      (w.handled m.event (w.conn.onClientEvent m.server m.event m.io) conn).due = true) ↔
    ¬ (Swallowed m.event (w.conn.onClientEvent m.server m.event m.io) conn ∨
      Refused (w.conn.onClientEvent m.server m.event m.io) conn ∨
      Unwatched w (w.conn.onClientEvent m.server m.event m.io) conn) := by
  have hwaits := (Conn.event_waits hc).2
  have hwrote := @wrote_write w.conn m.server m.event m.io
  generalize w.conn.onClientEvent m.server m.event m.io = r at hwaits hwrote ⊢
  constructor
  · rintro hdue (⟨hev, hnot, hms, hne, hfull⟩ | ⟨hwr, htls, hms, hne, hfull⟩ | ⟨hfull, hask⟩)
    · have := hdue (Or.inl hne)
      simp [handled, hnot, hms, hfull, hev] at this
    · have := hdue (Or.inl hne)
      simp [handled, hms, hfull, hwrote hwr, Option.isSome_iff_ne_none.mp htls] at this
    · have := hdue (Or.inr hfull)
      simp [handled, hask] at this
  · intro hno hout
    by_cases hask : r.asksWrite w.write = true
    · by_cases hfull : conn.Full
      · simp [handled, hask, hfull]
      by_cases hms : r.modifies = []
      · -- the output was there before the event, and its report with it
        have hne : conn.wbuf ≠ [] := hout.resolve_right hfull
        have hbefore : w.conn.wbuf ≠ [] := by
          rcases hwaits hne with ⟨-, hbefore⟩ | hlast
          · exact hbefore
          · rw [hms] at hlast
            cases hlast
        have hdue := hw (Or.inl hbefore)
        by_cases hev : m.event.write = true
        · cases hwr : r.wrote with
          | false => exact absurd (Or.inl ⟨hev, hwr, hms, hne, hfull⟩) hno
          | true =>
            cases htls : conn.tls with
            | none => simp [handled, hask, hwr, htls, hne]
            | some t =>
              exact absurd (Or.inr (Or.inl ⟨hwr, by rw [htls]; rfl, hms, hne, hfull⟩)) hno
        · simp [handled, hask, hdue, hev]
      · simp [handled, hask, hms]
    · have hask' : r.asksWrite w.write = false := by simpa using hask
      rcases hout with hne | hfull
      · exfalso
        rcases hwaits hne with ⟨hms, hbefore⟩ | hlast
        · rw [Handled.asksWrite, hms] at hask
          exact hask (w.due_write (hw (Or.inl hbefore)))
        · rw [Handled.asksWrite, hlast] at hask
          exact hask rfl
      · exact absurd (Or.inr (Or.inr ⟨hfull, hask'⟩)) hno

theorem due_attend (c : Option Watched) (m : ConnMeeting) (h : Due c) :
    Due (attend c m) ↔ ¬ Strands c m := by
  cases c with
  | none => exact iff_of_true (fun w hw => by cases hw) fun ⟨w, _, hw, _⟩ => by cases hw
  | some w =>
    cases hc : (w.conn.onClientEvent m.server m.event m.io).conn with
    | none =>
      have hnone : attend (some w) m = none := by simp [attend, hc]
      rw [hnone]
      refine iff_of_true (fun w hw => by cases hw) ?_
      rintro ⟨w', conn, hw', hconn, -⟩
      cases hw'
      rw [hc] at hconn
      cases hconn
    | some conn =>
      have hsome : attend (some w) m =
          some (w.handled m.event (w.conn.onClientEvent m.server m.event m.io) conn) := by
        simp [attend, hc]
      have hstep := due_handled (h w rfl) hc
      rw [hsome]
      constructor
      · rintro hdue ⟨w', conn', hw', hconn, hstr⟩
        cases hw'
        rw [hc] at hconn
        cases hconn
        exact hstep.mp (hdue _ rfl) hstr
      · intro hno w' hw'
        cases hw'
        exact hstep.mpr fun hstr => hno ⟨w, conn, rfl, hc, hstr⟩

/-- **When output is left lying.** In every run of a connection, whatever its socket, its TLS
engine, its client and the upstreams do: at every moment there is a report due for the output the
connection has, exactly if no event has swallowed a report, none has found a TLS engine that refuses
output while there is room, and none has left ciphertext while room is not asked for. -/
theorem output_due_iff (tls : Bool) (ms : List ConnMeeting) :
    (∀ pre, pre <+: ms → ∀ w, run attend (some (accepted tls)) pre = some w →
      w.conn.HasOutput → w.due = true) ↔
    ∀ pre m, pre ++ [m] <+: ms → ¬ Strands (run attend (some (accepted tls)) pre) m := by
  refine run_always_iff (Q := Due) due_attend ?_
  rintro w hw (hne | hfull)
  · cases hw
    cases tls <;> exact absurd rfl hne
  · cases hw
    cases tls <;> exact absurd rfl hfull.2

/-- An event that brings some bytes, and may say that there is room. -/
def sampleMeeting (input : String) (write : Bool) : ConnMeeting where
  server := sampleProxy
  event := { read := true, write }
  io := { recvs := [.bytes (ascii input)], sys := responds lowerResponse }

/-- **A response that stays where it is**: before there is room for it the client sends the head of
its next request. The report of room comes with the new bytes, and the branch for reading returns
because the body is not there. -/
theorem output_due_pipelined :
    (run attend (some (accepted false))
      [sampleMeeting "GET / HTTP/1.1\r\nHost: a\r\n\r\n" false,
        sampleMeeting "POST / HTTP/1.1\r\nHost: a\r\nContent-Length: 2\r\n\r\n" true]).map
      (fun w => (w.conn.wbuf, w.write, w.due)) = some (lowerResponse, true, false) := by
  decide +kernel

end Watched

end Uproxy
