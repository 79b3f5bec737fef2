import Uproxy.Config
import Uproxy.Lib.Escape
import Uproxy.Lib.Lines

/-!
# The log (`log.h`, `log.cpp`)

`Logger::log` drops a call below its level and writes the others, in JSON or as text, each while it
holds the lock: the output is that of the calls one after the other. A call is modelled with its
values as strings (what `value_to_string` makes of them), each shorter than 2^31 bytes. `fprintf`
gets them as C strings, so what follows a NUL byte is not written (`cStr`).

* **`json_log_read_back`**: a reader of JSON finds in each line one object with the level, the
  message and the pairs of the call it stands for, each cut at its first NUL. It refuses a line
  exactly if one of these holds a control byte other than a tab or an end of line, which
  `escape_json` leaves as it is.
* **`text_log_read_back`**: the text format escapes nothing. Its lines can be read back exactly if
  the strings hold no end of line, keys and values are single words, and no message ends like a
  pair.
-/

namespace Uproxy

open Lib.Escape Lib.Lines

/-- `LogLevel`. -/
inductive LogLevel where
  | trace | debug | info | warn | error
  deriving DecidableEq, Repr

namespace LogLevel

/-- `static_cast<int>(level)`. -/
def toInt : LogLevel → Int
  | trace => 0
  | debug => 1
  | info => 2
  | warn => 3
  | error => 4

end LogLevel

/-- `parse_log_level`. -/
def parseLogLevel (level : Bytes) : LogLevel :=
  if level = ascii "trace" then .trace
  else if level = ascii "debug" then .debug
  else if level = ascii "warn" then .warn
  else if level = ascii "error" then .error
  else .info

/-- `log_level_name`. -/
def logLevelName : LogLevel → Bytes
  | .trace => ascii "trace"
  | .debug => ascii "debug"
  | .info => ascii "info"
  | .warn => ascii "warn"
  | .error => ascii "error"

/-- What `%s` writes of a string. -/
def cStr (s : Bytes) : Bytes := s.takeWhile fun b => b != 0

/-- One byte of `Logger::escape_json`. -/
def escapeJsonByte (c : UInt8) : Bytes :=
  if c = 0x5c then ascii "\\\\"
  else if c = 0x22 then ascii "\\\""
  else if c = 0x0a then ascii "\\n"
  else if c = 0x0d then ascii "\\r"
  else if c = 0x09 then ascii "\\t"
  else [c]

/-- `Logger::escape_json`. -/
def escapeJson (input : Bytes) : Bytes := input.flatMap escapeJsonByte

/-- The arguments of `Logger::log`. -/
structure LogCall where
  level : LogLevel
  msg   : Bytes
  kv    : List (Bytes × Bytes) := []
  deriving DecidableEq, Repr

/-- `Logger`, without the file. -/
structure Logger where
  minLevel   : LogLevel
  jsonFormat : Bool
  deriving DecidableEq, Repr

/-- The logger `main` sets up. -/
def LogConfig.logger (log : LogConfig) : Logger :=
  ⟨parseLogLevel log.level, log.format == ascii "json"⟩

namespace Logger

/-- `write_json_pairs`. -/
def writeJsonPairs : List (Bytes × Bytes) → Bytes
  | [] => []
  | (key, value) :: rest =>
    ascii ",\"" ++ cStr (escapeJson key) ++ ascii "\":\"" ++ cStr (escapeJson value) ++
      ascii "\"" ++ writeJsonPairs rest

/-- `write_text_pairs`. -/
def writeTextPairs : List (Bytes × Bytes) → Bytes
  | [] => []
  | (key, value) :: rest =>
    ascii " " ++ cStr key ++ ascii "=" ++ cStr value ++ writeTextPairs rest

/-- What `Logger::log` writes. -/
def log (l : Logger) (call : LogCall) : Bytes :=
  if call.level.toInt < l.minLevel.toInt then []
  else if l.jsonFormat then
    ascii "\x7b\"level\":\"" ++ logLevelName call.level ++ ascii "\",\"msg\":\"" ++
      cStr (escapeJson call.msg) ++ ascii "\"" ++ writeJsonPairs call.kv ++ ascii "\x7d\n"
  else
    logLevelName call.level ++ ascii " " ++ cStr call.msg ++ writeTextPairs call.kv ++ ascii "\n"

/-- What is in the file behind a sequence of calls. -/
def written (l : Logger) (calls : List LogCall) : Bytes := calls.flatMap l.log

/-- The calls that are written. -/
def passed (l : Logger) (calls : List LogCall) : List LogCall :=
  calls.filter fun call => !decide (call.level.toInt < l.minLevel.toInt)

end Logger

/-! ## A reader of JSON

Of JSON, what is needed here: objects of strings, without blanks, without `\u` and with bytes above
0x7f taken as they are. -/

/-- Strings of JSON: a control byte may only stand there escaped. -/
def json : Escaping UInt8 where
  mark := 0x5c
  quote := 0x22
  code a :=
    if a = 0x5c then some 0x5c
    else if a = 0x22 then some 0x22
    else if a = 0x0a then some 0x6e
    else if a = 0x0d then some 0x72
    else if a = 0x09 then some 0x74
    else none
  decode b :=
    if b = 0x5c ∨ b = 0x22 ∨ b = 0x2f then some b
    else if b = 0x6e then some 0x0a
    else if b = 0x72 then some 0x0d
    else if b = 0x74 then some 0x09
    else if b = 0x62 then some 0x08
    else if b = 0x66 then some 0x0c
    else none
  plain a := decide (0x20 ≤ a)
  mark_ne_quote := by decide
  code_mark := by decide
  code_quote := by decide
  decode_code {a b} h := by
    split_ifs at h <;> simp_all <;> subst h <;> decide

/-- A member of an object, and what follows it. -/
def readMember (s : Bytes) : Option ((Bytes × Bytes) × Bytes) :=
  match s with
  | 0x22 :: s =>
    (json.unquote s).bind fun
      | (key, 0x3a :: 0x22 :: s) => (json.unquote s).map fun r => ((key, r.1), r.2)
      | _ => none
  | _ => none

/-- The members up to the closing brace, and what follows it. -/
def readMembers : Nat → Bytes → Option (List (Bytes × Bytes) × Bytes)
  | 0, _ => none
  | fuel + 1, s =>
    (readMember s).bind fun
      | (m, 0x2c :: s) => (readMembers fuel s).map fun r => (m :: r.1, r.2)
      | (m, 0x7d :: s) => some ([m], s)
      | _ => none

/-- The members of the object that a text is. -/
def readObject (s : Bytes) : Option (List (Bytes × Bytes)) :=
  match s with
  | 0x7b :: s => (readMembers s.length s).bind fun r => if r.2 = [] then some r.1 else none
  | _ => none

/-- Both strings of a member can be read. -/
def CleanMember (m : Bytes × Bytes) : Prop := json.Clean m.1 ∧ json.Clean m.2

instance instDecidableCleanMember (m : Bytes × Bytes) : Decidable (CleanMember m) :=
  inferInstanceAs (Decidable (json.Clean m.1 ∧ json.Clean m.2))

def memberText (m : Bytes × Bytes) : Bytes :=
  0x22 :: (json.escape m.1 ++ 0x22 :: 0x3a :: 0x22 :: (json.escape m.2 ++ [0x22]))

/-- The text of further members. -/
def membersText (ms : List (Bytes × Bytes)) : Bytes := ms.flatMap fun m => 0x2c :: memberText m

theorem readMember_memberText (m : Bytes × Bytes) (rest : Bytes) :
    readMember (memberText m ++ rest) = if CleanMember m then some (m, rest) else none := by
  have hkey := json.unquote_escape m.1 (0x3a :: 0x22 :: (json.escape m.2 ++ json.quote :: rest))
  have hvalue := json.unquote_escape m.2 rest
  have htext : memberText m ++ rest = 0x22 :: (json.escape m.1 ++
      json.quote :: 0x3a :: 0x22 :: (json.escape m.2 ++ json.quote :: rest)) := by
    simp [memberText, json]
  rw [htext, readMember, hkey]
  by_cases h1 : json.Clean m.1
  · simp only [if_pos h1, Option.bind_some, hvalue]
    by_cases h2 : json.Clean m.2
    · rw [if_pos h2, if_pos ⟨h1, h2⟩]
      rfl
    · rw [if_neg h2, if_neg fun h => h2 h.2]
      rfl
  · rw [if_neg h1, if_neg fun h => h1 h.1]
    rfl

/-- Members are read up to the brace; one that is not clean makes the reader refuse them all. -/
theorem readMembers_text (rest : Bytes) : ∀ {fuel : Nat} (m : Bytes × Bytes)
    (ms : List (Bytes × Bytes)), ms.length < fuel →
      readMembers fuel (memberText m ++ (membersText ms ++ 0x7d :: rest)) =
        if ∀ m' ∈ m :: ms, CleanMember m' then some (m :: ms, rest) else none
  | 0, _, _, h => absurd h (Nat.not_lt_zero _)
  | fuel + 1, m, [], _ => by
    rw [readMembers, readMember_memberText]
    simp only [List.forall_mem_singleton]
    by_cases hm : CleanMember m
    · rw [if_pos hm, if_pos hm]
      rfl
    · rw [if_neg hm, if_neg hm]
      rfl
  | fuel + 1, m, m' :: ms, h => by
    have htext : membersText (m' :: ms) ++ 0x7d :: rest =
        0x2c :: (memberText m' ++ (membersText ms ++ 0x7d :: rest)) := by
      simp [membersText]
    have ih := readMembers_text rest m' ms (Nat.lt_of_succ_lt_succ h)
    rw [readMembers, readMember_memberText, htext]
    by_cases hm : CleanMember m
    · have hall : (∀ m'' ∈ m :: m' :: ms, CleanMember m'') ↔
          ∀ m'' ∈ m' :: ms, CleanMember m'' := by
        simp [hm]
      simp only [if_pos hm, hall]
      show Option.map _ (readMembers fuel _) = _
      rw [ih]
      split_ifs <;> rfl
    · rw [if_neg hm, if_neg fun h => hm (h m List.mem_cons_self)]
      rfl

theorem length_le_membersText (ms : List (Bytes × Bytes)) :
    ms.length ≤ (membersText ms).length := by
  induction ms with
  | nil => exact Nat.le_refl _
  | cons m ms ih =>
    simp only [membersText, List.flatMap_cons, List.length_append, List.length_cons] at ih ⊢
    omega

/-- An object is read back, or refused. -/
theorem readObject_text (m : Bytes × Bytes) (ms : List (Bytes × Bytes)) :
    readObject (0x7b :: (memberText m ++ (membersText ms ++ [0x7d]))) =
      if ∀ m' ∈ m :: ms, CleanMember m' then some (m :: ms) else none := by
  have hlen : ms.length < (memberText m ++ (membersText ms ++ [0x7d])).length := by
    have := length_le_membersText ms
    simp only [List.length_append, List.length_singleton]
    omega
  rw [readObject, readMembers_text [] m ms hlen]
  split_ifs <;> rfl

namespace LogCall

/-- What a line says of a call. -/
def members (call : LogCall) : List (Bytes × Bytes) :=
  (ascii "level", logLevelName call.level) :: (ascii "msg", cStr call.msg) ::
    call.kv.map fun p => (cStr p.1, cStr p.2)

/-- No string holds, up to its first NUL, a control byte that is not escaped. -/
def Clean (call : LogCall) : Prop := ∀ m ∈ call.members, CleanMember m

instance instDecidableClean (call : LogCall) : Decidable call.Clean :=
  inferInstanceAs (Decidable (∀ m ∈ call.members, CleanMember m))

end LogCall

/-! ## What is written -/

theorem escapeJson_eq (s : Bytes) : escapeJson s = json.escape s := by
  refine List.flatMap_congr fun a _ => ?_
  simp only [escapeJsonByte, json]
  split_ifs <;> rfl

/-- A code of JSON, and what it stands for, is no NUL byte and no end of line. -/
theorem json_code {a b : UInt8} (h : json.code a = some b) : a ≠ 0 ∧ b ≠ 0 ∧ b ≠ 0x0a := by
  simp only [json] at h
  split_ifs at h with h1 h2 h3 h4 h5 <;> cases h
  · exact ⟨h1 ▸ by decide, by decide, by decide⟩
  · exact ⟨h2 ▸ by decide, by decide, by decide⟩
  · exact ⟨h3 ▸ by decide, by decide, by decide⟩
  · exact ⟨h4 ▸ by decide, by decide, by decide⟩
  · exact ⟨h5 ▸ by decide, by decide, by decide⟩

theorem cStr_escapeJson (s : Bytes) : cStr (escapeJson s) = json.escape (cStr s) := by
  rw [escapeJson_eq]
  refine json.takeWhile_escape (by decide) (fun h => ?_) s
  obtain ⟨ha, hb, -⟩ := json_code h
  exact ⟨by simpa using ha, by simpa using hb⟩

theorem lf_not_mem_memberText (m : Bytes × Bytes) : (0x0a : UInt8) ∉ memberText m := by
  have hesc := json.not_mem_escape (x := 0x0a) (by decide) (by decide)
    fun a h => (json_code h).2.2 rfl
  simp [memberText, hesc]

namespace Logger

theorem writeJsonPairs_eq (kv : List (Bytes × Bytes)) :
    writeJsonPairs kv = membersText (kv.map fun p => (cStr p.1, cStr p.2)) := by
  induction kv with
  | nil => rfl
  | cons p kv ih =>
    have h1 : ascii ",\"" = [0x2c, 0x22] := by decide
    have h2 : ascii "\":\"" = [0x22, 0x3a, 0x22] := by decide
    have h3 : ascii "\"" = [0x22] := by decide
    simp only [writeJsonPairs, cStr_escapeJson, ih, h1, h2, h3]
    simp [membersText, memberText]

/-- The line of a call, without its end. -/
def line (call : LogCall) : Bytes :=
  0x7b :: (memberText (ascii "level", logLevelName call.level) ++
    (membersText ((ascii "msg", cStr call.msg) :: call.kv.map fun p => (cStr p.1, cStr p.2)) ++
      [0x7d]))

theorem log_json (min : LogLevel) (call : LogCall) :
    (Logger.mk min true).log call =
      if call.level.toInt < min.toInt then [] else line call ++ [0x0a] := by
  have hopen : ascii "\x7b\"level\":\"" =
      0x7b :: 0x22 :: (ascii "level" ++ [0x22, 0x3a, 0x22]) := by decide
  have hmsg : ascii "\",\"msg\":\"" =
      0x22 :: 0x2c :: 0x22 :: (ascii "msg" ++ [0x22, 0x3a, 0x22]) := by decide
  have hquote : ascii "\"" = [0x22] := by decide
  have hclose : ascii "\x7d\n" = [0x7d, 0x0a] := by decide
  have hlevel : json.escape (ascii "level") = ascii "level" := by decide
  have hname : json.escape (logLevelName call.level) = logLevelName call.level := by
    cases call.level <;> decide
  have hkey : json.escape (ascii "msg") = ascii "msg" := by decide
  simp only [log, if_true, hopen, hmsg, hquote, hclose, cStr_escapeJson, writeJsonPairs_eq]
  split_ifs
  · rfl
  · simp [line, memberText, membersText, hlevel, hname, hkey]

theorem lf_not_mem_line (call : LogCall) : (0x0a : UInt8) ∉ line call := by
  simp [line, membersText, lf_not_mem_memberText]

/-- The file is the lines of the calls that pass. -/
theorem written_eq {l : Logger} {text : LogCall → Bytes}
    (h : ∀ call, l.log call =
      if call.level.toInt < l.minLevel.toInt then [] else text call ++ [0x0a])
    (calls : List LogCall) :
    l.written calls = ((l.passed calls).map text).flatMap (· ++ [0x0a]) := by
  induction calls with
  | nil => rfl
  | cons call calls ih =>
    unfold written passed at ih ⊢
    rw [List.flatMap_cons, ih, h, List.filter_cons]
    by_cases hpass : call.level.toInt < l.minLevel.toInt <;> simp [hpass]

end Logger

theorem readObject_line (call : LogCall) :
    readObject (Logger.line call) = if call.Clean then some call.members else none := by
  rw [Logger.line, readObject_text]
  rfl

/-- **A log in JSON is read back** line by line: each line is one object that says what was logged,
and it can be read unless a string holds a control byte that `escape_json` does not escape. -/
theorem json_log_read_back (min : LogLevel) (calls : List LogCall) :
    (lines 0x0a ((Logger.mk min true).written calls)).map readObject =
      ((Logger.mk min true).passed calls).map fun call =>
        if call.Clean then some call.members else none := by
  have hlf : ∀ s ∈ ((Logger.mk min true).passed calls).map Logger.line, (0x0a : UInt8) ∉ s := by
    intro s hs
    obtain ⟨call, -, rfl⟩ := List.mem_map.mp hs
    exact Logger.lf_not_mem_line call
  rw [Logger.written_eq (Logger.log_json min), lines_flatMap hlf, List.map_map]
  refine List.map_congr_left fun call _ => ?_
  rw [Function.comp_apply, readObject_line]

/-! ## A reader of the text format -/

/-- A level, by its name. -/
def readLevel (word : Bytes) : Option LogLevel :=
  [LogLevel.trace, .debug, .info, .warn, .error].find? fun level => logLevelName level = word

def isPair (word : Bytes) : Bool := word.contains 0x3d

/-- A pair, cut at its first `=`. -/
def readPair (word : Bytes) : Bytes × Bytes :=
  (word.takeWhile (· ≠ 0x3d), (word.dropWhile (· ≠ 0x3d)).drop 1)

/-- A line of the text format: the level, and as many words at the end as are pairs. -/
def readText (line : Bytes) : Option LogCall :=
  match line.splitOn 0x20 with
  | [] => none
  | word :: words => (readLevel word).map fun level =>
    ⟨level, [0x20].intercalate (words.rdropWhile isPair), (words.rtakeWhile isPair).map readPair⟩

namespace LogCall

/-- What is written of a call: its strings up to their first NUL. -/
def cut (call : LogCall) : LogCall :=
  ⟨call.level, cStr call.msg, call.kv.map fun p => (cStr p.1, cStr p.2)⟩

/-- The words of a line can be told apart: the message does not end with what looks like a pair,
and keys and values are single words. -/
structure Plain (call : LogCall) : Prop where
  msg   : 0x0a ∉ call.msg
  last  : ∀ word ∈ (call.msg.splitOn 0x20).getLast?, 0x3d ∉ word
  key   : ∀ p ∈ call.kv, 0x0a ∉ p.1 ∧ 0x20 ∉ p.1 ∧ 0x3d ∉ p.1
  value : ∀ p ∈ call.kv, 0x0a ∉ p.2 ∧ 0x20 ∉ p.2

end LogCall

def pairText (p : Bytes × Bytes) : Bytes := p.1 ++ 0x3d :: p.2

/-- The text of a message and pairs. -/
def wordsText (msg : Bytes) (kv : List (Bytes × Bytes)) : Bytes :=
  msg ++ kv.flatMap fun p => 0x20 :: pairText p

theorem splitOn_wordsText (msg : Bytes) (kv : List (Bytes × Bytes)) :
    (wordsText msg kv).splitOn 0x20 =
      msg.splitOn 0x20 ++ kv.flatMap fun p => (pairText p).splitOn 0x20 := by
  induction kv generalizing msg with
  | nil => simp [wordsText]
  | cons p kv ih =>
    have htext : wordsText msg (p :: kv) = msg ++ 0x20 :: wordsText (pairText p) kv := by
      simp [wordsText]
    rw [htext, List.splitOn_append_cons_self, ih, List.flatMap_cons]

theorem isPair_pairText (p : Bytes × Bytes) : isPair (pairText p) = true := by
  simp [isPair, pairText]

theorem isPair_eq_false_iff {word : Bytes} : isPair word = false ↔ 0x3d ∉ word := by
  simp [isPair]

/-- A pair is read back if its key holds no `=`. -/
theorem readPair_pairText {p : Bytes × Bytes} : readPair (pairText p) = p ↔ 0x3d ∉ p.1 := by
  constructor
  · intro h hmem
    have hkey : (pairText p).takeWhile (· ≠ 0x3d) = p.1 := congrArg Prod.fst h
    rw [← hkey] at hmem
    simpa using List.mem_takeWhile_imp hmem
  · intro h
    have hne : ∀ b ∈ p.1, (decide (b ≠ 0x3d)) = true := fun b hb =>
      decide_eq_true fun he => h (he ▸ hb)
    unfold readPair pairText
    rw [List.takeWhile_append_of_pos hne, List.dropWhile_append_of_pos hne]
    simp

theorem splitOn_pairTexts {kv : List (Bytes × Bytes)} (h : ∀ p ∈ kv, 0x20 ∉ pairText p) :
    (kv.flatMap fun p => (pairText p).splitOn 0x20) = kv.map pairText := by
  rw [List.map_eq_flatMap]
  exact List.flatMap_congr fun p hp => List.splitOn_eq_singleton (h p hp)

/-- Read back, the words of the message and those of the pairs are told apart. -/
theorem words_of_read {msg : Bytes} {kv : List (Bytes × Bytes)} {ws : List Bytes}
    (hws : ws = msg.splitOn 0x20 ++ kv.flatMap fun p => (pairText p).splitOn 0x20)
    (hmsg : [0x20].intercalate (ws.rdropWhile isPair) = msg)
    (hkv : (ws.rtakeWhile isPair).map readPair = kv) :
    ws.rdropWhile isPair = msg.splitOn 0x20 ∧ ws.rtakeWhile isPair = kv.map pairText ∧
      ∀ p ∈ kv, 0x20 ∉ pairText p := by
  have hnil : ∀ p ∈ kv, (pairText p).splitOn 0x20 ≠ [] := fun p _ => List.splitOn_ne_nil _ _
  have hsplit := List.rdropWhile_append_rtakeWhile (p := isPair) (l := ws)
  have hlen := congrArg List.length (hsplit.trans hws)
  have hcount := congrArg List.length hkv
  simp only [List.length_append, List.length_map] at hlen hcount
  -- what is read as the message is not empty, so its words are those of the message
  have hne : ws.rdropWhile isPair ≠ [] := by
    intro h0
    have := length_le_flatMap hnil
    have := List.length_pos_iff.mpr (List.splitOn_ne_nil 0x20 msg)
    rw [h0, List.length_nil] at hlen
    omega
  have hword : ∀ w ∈ ws.rdropWhile isPair, 0x20 ∉ w := by
    intro w hw
    have hw := (List.rdropWhile_prefix isPair ws).subset hw
    rw [hws, List.mem_append, List.mem_flatMap] at hw
    rcases hw with hw | ⟨p, -, hw⟩
    · exact not_mem_of_mem_splitOn hw
    · exact not_mem_of_mem_splitOn hw
  have hwords : ws.rdropWhile isPair = msg.splitOn 0x20 := by
    rw [← hmsg, List.splitOn_intercalate 0x20 hword hne]
  rw [hwords] at hsplit hlen
  have hone := length_eq_one_of_flatMap hnil (by omega)
  have hsingle : ∀ p ∈ kv, 0x20 ∉ pairText p := fun p hp => length_splitOn_eq_one (hone p hp)
  have hpairs := List.append_cancel_left (hsplit.trans hws)
  exact ⟨hwords, hpairs.trans (splitOn_pairTexts hsingle), hsingle⟩

/-- **The words of a line are read back** exactly if the message does not end with a pair, and keys
and values are single words. -/
theorem read_wordsText (msg : Bytes) (kv : List (Bytes × Bytes)) :
    ([0x20].intercalate (((wordsText msg kv).splitOn 0x20).rdropWhile isPair) = msg ∧
        (((wordsText msg kv).splitOn 0x20).rtakeWhile isPair).map readPair = kv) ↔
      (∀ word ∈ (msg.splitOn 0x20).getLast?, 0x3d ∉ word) ∧
        ∀ p ∈ kv, 0x20 ∉ pairText p ∧ 0x3d ∉ p.1 := by
  rw [splitOn_wordsText]
  constructor
  · rintro ⟨hmsg, hkv⟩
    obtain ⟨hwords, hpairs, hsingle⟩ := words_of_read rfl hmsg hkv
    refine ⟨fun word hword => ?_, fun p hp => ⟨hsingle p hp, readPair_pairText.mp ?_⟩⟩
    · rw [← hwords] at hword
      obtain ⟨hne, rfl⟩ := List.mem_getLast?_eq_getLast hword
      rw [← isPair_eq_false_iff, ← Bool.not_eq_true]
      exact List.rdropWhile_last_not isPair _ hne
    · rw [hpairs, List.map_map] at hkv
      exact List.map_inj_left.mp (hkv.trans (List.map_id kv).symm) p hp
  · rintro ⟨hlast, hkv⟩
    have hpair : ∀ w ∈ kv.map pairText, isPair w = true := by
      intro w hw
      obtain ⟨p, -, rfl⟩ := List.mem_map.mp hw
      exact isPair_pairText p
    obtain ⟨hdrop, htake⟩ := rtakeWhile_append hpair
      fun w hw => isPair_eq_false_iff.mpr (hlast w hw)
    rw [splitOn_pairTexts fun p hp => (hkv p hp).1, hdrop, htake, List.map_map]
    exact ⟨List.intercalate_splitOn 0x20,
      (List.map_congr_left fun p hp => readPair_pairText.mpr (hkv p hp).2).trans (List.map_id kv)⟩

namespace Logger

/-- The line of a call in the text format, without its end. -/
def textLine (call : LogCall) : Bytes :=
  logLevelName call.level ++ 0x20 :: wordsText call.cut.msg call.cut.kv

theorem writeTextPairs_eq (kv : List (Bytes × Bytes)) :
    writeTextPairs kv =
      (kv.map fun p => (cStr p.1, cStr p.2)).flatMap fun p => 0x20 :: pairText p := by
  have h1 : ascii " " = [0x20] := by decide
  have h2 : ascii "=" = [0x3d] := by decide
  induction kv with
  | nil => rfl
  | cons p kv ih =>
    simp only [writeTextPairs, ih, h1, h2]
    simp [pairText]

theorem log_text (min : LogLevel) (call : LogCall) :
    (Logger.mk min false).log call =
      if call.level.toInt < min.toInt then [] else textLine call ++ [0x0a] := by
  have h1 : ascii " " = [0x20] := by decide
  have h2 : ascii "\n" = [0x0a] := by decide
  simp only [log, Bool.false_eq_true, if_false, h1, h2, writeTextPairs_eq]
  split_ifs
  · rfl
  · simp [textLine, wordsText, LogCall.cut]

end Logger

theorem readLevel_logLevelName (level : LogLevel) :
    readLevel (logLevelName level) = some level := by
  cases level <;> decide

/-- The line of a call is read back exactly if its words can be told apart. -/
theorem readText_textLine (call : LogCall) :
    readText (Logger.textLine call) = some call.cut ↔
      (∀ word ∈ (call.cut.msg.splitOn 0x20).getLast?, 0x3d ∉ word) ∧
        ∀ p ∈ call.cut.kv, 0x20 ∉ pairText p ∧ 0x3d ∉ p.1 := by
  have hlevel : 0x20 ∉ logLevelName call.level := by
    cases call.level <;> decide
  rw [← read_wordsText, readText, Logger.textLine, List.splitOn_append_cons_self_of_not_mem hlevel]
  simp only [readLevel_logLevelName, Option.map_some, Option.some.injEq]
  exact ⟨fun h => ⟨congrArg LogCall.msg h, congrArg LogCall.kv h⟩,
    fun h => congrArg₂ (LogCall.mk call.level) h.1 h.2⟩

theorem lf_not_mem_textLine (call : LogCall) :
    0x0a ∉ Logger.textLine call ↔
      0x0a ∉ call.cut.msg ∧ ∀ p ∈ call.cut.kv, 0x0a ∉ p.1 ∧ 0x0a ∉ p.2 := by
  have hlevel : 0x0a ∉ logLevelName call.level := by
    cases call.level <;> decide
  simp only [Logger.textLine, wordsText, pairText, List.mem_append, List.mem_cons,
    List.mem_flatMap, hlevel, false_or, not_or, not_exists, not_and]
  simp

theorem LogCall.plain_cut_iff (call : LogCall) :
    call.cut.Plain ↔
      0x0a ∉ Logger.textLine call ∧ readText (Logger.textLine call) = some call.cut := by
  rw [lf_not_mem_textLine, readText_textLine]
  simp only [pairText, List.mem_append, List.mem_cons, not_or]
  constructor
  · intro h
    refine ⟨⟨h.msg, fun p hp => ⟨(h.key p hp).1, (h.value p hp).1⟩⟩, h.last, fun p hp => ?_⟩
    exact ⟨⟨(h.key p hp).2.1, by decide, (h.value p hp).2⟩, (h.key p hp).2.2⟩
  · rintro ⟨⟨hmsg, hlf⟩, hlast, hkv⟩
    refine ⟨hmsg, hlast, fun p hp => ?_, fun p hp => ?_⟩
    · exact ⟨(hlf p hp).1, (hkv p hp).1.1, (hkv p hp).2⟩
    · exact ⟨(hlf p hp).2, (hkv p hp).1.2.2⟩

/-- **A log in the text format is read back** exactly if no string of a call that is written holds
an end of line, no message ends with what looks like a pair, and keys and values are single
words. -/
theorem text_log_read_back (min : LogLevel) (calls : List LogCall) :
    (lines 0x0a ((Logger.mk min false).written calls)).map readText =
        ((Logger.mk min false).passed calls).map (fun call => some call.cut) ↔
      ∀ call ∈ (Logger.mk min false).passed calls, call.cut.Plain := by
  rw [Logger.written_eq (Logger.log_text min)]
  -- both sides say that the lines of the file are those of the calls
  have hlines : (∀ call ∈ (Logger.mk min false).passed calls, 0x0a ∉ Logger.textLine call) →
      lines 0x0a ((((Logger.mk min false).passed calls).map Logger.textLine).flatMap
        (· ++ [0x0a])) = ((Logger.mk min false).passed calls).map Logger.textLine :=
    fun h => lines_flatMap (List.forall_mem_map.mpr h)
  constructor
  · intro h call hcall
    have hlen := congrArg List.length h
    rw [List.length_map, List.length_map] at hlen
    have hlf := length_lines_flatMap (hlen.trans (List.length_map _).symm)
    have hlf := List.forall_mem_map.mp hlf
    rw [hlines hlf, List.map_map] at h
    exact call.plain_cut_iff.mpr ⟨hlf call hcall, List.map_inj_left.mp h call hcall⟩
  · intro h
    rw [hlines fun call hcall => (call.plain_cut_iff.mp (h call hcall)).1, List.map_map]
    exact List.map_congr_left fun call hcall => (call.plain_cut_iff.mp (h call hcall)).2

/-- One call that reads as two: the client's texts decide what the second line says. -/
example : (lines 0x0a ((Logger.mk .info false).written
      [⟨.info, ascii "closed\nerror disk=full", []⟩])).map readText =
    [some ⟨.info, ascii "closed", []⟩, some ⟨.error, [], [(ascii "disk", ascii "full")]⟩] := by
  decide +kernel

end Uproxy
