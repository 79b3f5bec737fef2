import Uproxy.Config
import Uproxy.Http1.Message
import Uproxy.Lib.Lines
import Uproxy.Lib.Run

/-!
# Reading the configuration file (`config_from_file`)

The reader goes line by line: it cuts the line at the first `#`, trims it, and takes it for a
section header or for an assignment, which it splits at the first `=`. What a key does depends on
the section; the chain of comparisons in each section is the list of its keys (`ConfigKey`), in the
order of the source. A key that is not in the list is ignored. `current_upstream` points to the last
upstream of the configuration whenever it is used.

The file system is an input: `files path` is the text of a file that can be opened. `std::isspace`
is that of the "C" locale.

* `trim_cutComment`: what is left of an assignment;
* `readLine_assignment`: **an assignment is read as its key and its trimmed value**, for every key
  of a section;
* `assignIn_frame`: what an assignment leaves alone, from which `configFromFile_kept` says what
  holds of every configuration that is read.
-/

namespace Uproxy

open Lib Lib.Search

/-! ## Values -/

/-- `std::isspace`. -/
def isSpace (c : UInt8) : Bool := c == sp || (9 ≤ c && c ≤ 13)

def trim (input : Bytes) : Bytes := Lines.trim isSpace input

def quote : UInt8 := 34
def hash : UInt8 := 35
def equals : UInt8 := 61

def parseBool (value : Bytes) : Bool := trim value == ascii "true"

def parseString (value : Bytes) : Bytes :=
  let v := trim value
  if 2 ≤ v.length ∧ v.head? = some quote ∧ v.getLast? = some quote then
    (v.drop 1).take (v.length - 2)
  else v

/-- `std::from_chars` into `uint32_t`. -/
def fromCharsU32 (s : Bytes) : Option (Nat × Bytes) := (fromChars 10 s).filter (·.1 < 2 ^ 32)

def parseU32 (value : Bytes) (field : String) : Result UInt32 :=
  match fromCharsU32 (trim value) with
  | some (out, []) => .ok out.toUInt32
  | _ => .error (.fromCode .configInvalid field)

def parsePort (value : Bytes) (field : String) : Result UInt16 :=
  match parseU32 value field with
  | .error e => .error e
  | .ok parsed =>
    if parsed = 0 ∨ parsed > 65535 then .error (.fromCode .configInvalid field)
    else .ok parsed.toUInt16

/-! ## Keys -/

/-- A key of a section, and what its value does. -/
structure ConfigKey (σ : Type) where
  name : String
  set  : Bytes → σ → Result σ

section

variable {σ : Type}

def stringKey (name : String) (put : Bytes → σ → σ) : ConfigKey σ :=
  ⟨name, fun value s => .ok (put (parseString value) s)⟩

def portKey (name : String) (put : UInt16 → σ → σ) : ConfigKey σ :=
  ⟨name, fun value s => (parsePort value name).map (put · s)⟩

def u32Key (name : String) (put : UInt32 → σ → σ) : ConfigKey σ :=
  ⟨name, fun value s => (parseU32 value name).map (put · s)⟩

/-- The branch of a key, if it has one. -/
def assign (keys : List (ConfigKey σ)) (key value : Bytes) (s : σ) : Result σ :=
  match keys.find? fun k => ascii k.name = key with
  | none => .ok s
  | some k => k.set value s

end

def proxyKeys : List (ConfigKey ProxyConfig) :=
  [stringKey "listen_addr" fun v cfg => { cfg with listenAddr := v },
    portKey "listen_port" fun v cfg => { cfg with listenPort := v },
    portKey "tls_port" fun v cfg => { cfg with tlsPort := v },
    u32Key "worker_threads" fun v cfg => { cfg with workerThreads := v }]

/-- The branch of `alpn`, which looks for the two protocols anywhere in the value. -/
def readAlpn (value : Bytes) : List Bytes :=
  (if contains (ascii "h2") value then [ascii "h2"] else []) ++
    (if contains (ascii "http/1.1") value then [ascii "http/1.1"] else [])

def tlsKeys : List (ConfigKey ProxyConfig) :=
  [stringKey "cert_file" fun v cfg => { cfg with tls.certFile := v },
    stringKey "key_file" fun v cfg => { cfg with tls.keyFile := v },
    stringKey "min_version" fun v cfg => { cfg with tls.minVersion := v },
    ⟨"alpn", fun value cfg => .ok { cfg with tls.alpn := readAlpn value }⟩]

def poolKeys : List (ConfigKey ProxyConfig) :=
  [u32Key "max_connections_per_upstream" fun v cfg => { cfg with pool.maxConnsPerUpstream := v },
    u32Key "connect_timeout_ms" fun v cfg => { cfg with pool.connectTimeoutMs := v },
    u32Key "idle_timeout_ms" fun v cfg => { cfg with pool.idleTimeoutMs := v },
    u32Key "max_keepalive" fun v cfg => { cfg with pool.maxKeepalive := v }]

def logKeys : List (ConfigKey ProxyConfig) :=
  [stringKey "level" fun v cfg => { cfg with log.level := v },
    stringKey "format" fun v cfg => { cfg with log.format := v },
    stringKey "file" fun v cfg => { cfg with log.file := v }]

def upstreamKeys : List (ConfigKey UpstreamConfig) :=
  [stringKey "name" fun v u => { u with name := v },
    stringKey "addr" fun v u => { u with addr := v },
    portKey "port" fun v u => { u with port := v },
    u32Key "weight" fun v u => { u with weight := v },
    ⟨"healthy", fun value u => .ok { u with healthy := parseBool value }⟩,
    ⟨"protocol", fun value u =>
      .ok (if parseString value = ascii "h2c" then { u with proto := .h2c } else u)⟩]

/-! ## Lines -/

/-- `Section`. -/
inductive ConfigSection where
  | root | proxy | tls | pool | log | upstream
  deriving DecidableEq, Repr

/-- The variables of the loop of `config_from_file`. -/
structure ConfigReader where
  cfg  : ProxyConfig := {}
  sect : ConfigSection := .root
  line : Nat := 0
  deriving DecidableEq, Repr

/-- `line.resize(line.find('#'))`. -/
def cutComment (line : Bytes) : Bytes := line.takeWhile (· ≠ hash)

def assignUpstream (cfg : ProxyConfig) (key value : Bytes) : Result ProxyConfig :=
  match cfg.upstreams.getLast? with
  | none => .ok cfg
  | some u => (assign upstreamKeys key value u).map fun u =>
      { cfg with upstreams := cfg.upstreams.dropLast ++ [u] }

/-- An assignment in a section. -/
def assignIn (sect : ConfigSection) (cfg : ProxyConfig) (key value : Bytes) : Result ProxyConfig :=
  match sect with
  | .root => .ok cfg
  | .proxy => assign proxyKeys key value cfg
  | .tls => assign tlsKeys key value cfg
  | .pool => assign poolKeys key value cfg
  | .log => assign logKeys key value cfg
  | .upstream => assignUpstream cfg key value

/-- The body of the loop of `config_from_file`. -/
def readLine (r : ConfigReader) (line : Bytes) : Result ConfigReader :=
  let r := { r with line := r.line + 1 }
  let t := trim (cutComment line)
  if t = [] then .ok r
  else if t = ascii "[proxy]" then .ok { r with sect := .proxy }
  else if t = ascii "[tls]" then .ok { r with sect := .tls }
  else if t = ascii "[pool]" then .ok { r with sect := .pool }
  else if t = ascii "[log]" then .ok { r with sect := .log }
  else if t = ascii "[[upstream]]" then
    .ok { r with cfg.upstreams := r.cfg.upstreams ++ [{}], sect := .upstream }
  else
    match find [equals] t with
    | none =>
      .error (.fromCode .configSyntax ("syntax error on line " ++ toString r.line))
    | some eq =>
      (assignIn r.sect r.cfg (trim (t.take eq)) (trim (t.drop (eq + 1)))).map fun cfg =>
        { r with cfg }

def readConfig (text : Bytes) : Result ProxyConfig :=
  ((Lines.lines lf text).foldlM readLine {}).map ConfigReader.cfg

/-- `config_from_file`. -/
def configFromFile (files : Bytes → Option Bytes) (path : Bytes) : Result ProxyConfig :=
  match files path with
  | none =>
    if path = ascii "./uproxy.toml" ∨ path = ascii "uproxy.toml" then .ok {}
    else .error (.fromCode .configSyntax "config not found")
  | some text => readConfig text

/-! ## Assignments -/

/-- The text of a key: no blank, no comment and no `=` in it. -/
def KeyText (key : Bytes) : Prop :=
  key ≠ [] ∧ ∀ c ∈ key, isSpace c = false ∧ c ≠ hash ∧ c ≠ equals

instance instDecidableKeyText (key : Bytes) : Decidable (KeyText key) :=
  inferInstanceAs (Decidable (_ ∧ _))

/-- `key = value`. -/
def assignment (key value : Bytes) : Bytes := key ++ sp :: equals :: sp :: value

/-- **What is left of an assignment.** -/
theorem trim_cutComment {key : Bytes} (hk : KeyText key) (value : Bytes) :
    trim (cutComment (assignment key value)) =
      (key ++ [sp]) ++ equals :: (sp :: cutComment value).rdropWhile isSpace := by
  have hcut : cutComment (assignment key value) =
      (key ++ [sp]) ++ equals :: (sp :: cutComment value) := by
    unfold cutComment assignment
    rw [List.takeWhile_append_of_pos fun c hc => decide_eq_true (hk.2 c hc).2.1]
    simp [sp, equals, hash]
  obtain ⟨c, k, rfl⟩ := List.exists_cons_of_ne_nil hk.1
  have hc : ¬ isSpace c = true := by simp [(hk.2 c List.mem_cons_self).1]
  rw [hcut, trim, Lines.trim_append_cons (show isSpace equals = false by decide),
    List.cons_append, List.dropWhile_cons_of_neg hc]

/-- **An assignment is read as its key and its trimmed value.** -/
theorem readLine_assignment {key : Bytes} (hk : KeyText key) (r : ConfigReader) (value : Bytes) :
    readLine r (assignment key value) =
      (assignIn r.sect r.cfg key (trim (cutComment value))).map fun cfg =>
        { r with cfg, line := r.line + 1 } := by
  have ht := trim_cutComment hk value
  have hmem : equals ∈ trim (cutComment (assignment key value)) := by
    rw [ht]
    exact List.mem_append_right _ List.mem_cons_self
  -- a section header has no `=`
  have hne : ∀ h : Bytes, equals ∉ h → trim (cutComment (assignment key value)) ≠ h :=
    fun h hh he => hh (he ▸ hmem)
  have hfind : find [equals] (trim (cutComment (assignment key value))) =
      some (key.length + 1) := by
    refine find_singleton.mpr ⟨key ++ [sp], _, ht, fun hm => ?_, by simp⟩
    rcases List.mem_append.mp hm with hm | hm
    · exact (hk.2 _ hm).2.2 rfl
    · exact absurd (List.mem_singleton.mp hm) (by decide)
  have hkey : trim ((trim (cutComment (assignment key value))).take (key.length + 1)) = key := by
    rw [ht, show key.length + 1 = (key ++ [sp]).length by simp, List.take_left, trim,
      Lines.trim_concat_pos (by decide)]
    exact Lines.trim_eq_self fun c hc => (hk.2 c hc).1
  have hvalue : trim ((trim (cutComment (assignment key value))).drop (key.length + 1 + 1)) =
      trim (cutComment value) := by
    rw [ht, show key.length + 1 = (key ++ [sp]).length by simp, drop_behind, trim,
      Lines.trim_rdropWhile, Lines.trim_cons_pos (by decide), trim]
  unfold readLine
  simp only [if_neg (hne [] List.not_mem_nil), if_neg (hne (ascii "[proxy]") (by decide)),
    if_neg (hne (ascii "[tls]") (by decide)), if_neg (hne (ascii "[pool]") (by decide)),
    if_neg (hne (ascii "[log]") (by decide)), if_neg (hne (ascii "[[upstream]]") (by decide)),
    hfind, hkey, hvalue]

/-- The keys of a section are different, and are texts that can be read. -/
structure KeysOk {σ : Type} (keys : List (ConfigKey σ)) : Prop where
  nodup : (keys.map fun k => ascii k.name).Nodup
  text  : ∀ k ∈ keys.map fun k => ascii k.name, KeyText k

theorem keysOk_proxy : KeysOk proxyKeys := ⟨by decide +kernel, by decide +kernel⟩

theorem keysOk_tls : KeysOk tlsKeys := ⟨by decide +kernel, by decide +kernel⟩

theorem keysOk_pool : KeysOk poolKeys := ⟨by decide +kernel, by decide +kernel⟩

theorem keysOk_log : KeysOk logKeys := ⟨by decide +kernel, by decide +kernel⟩

theorem keysOk_upstream : KeysOk upstreamKeys := ⟨by decide +kernel, by decide +kernel⟩

/-- The comparisons of a chain find the key they are made for. -/
theorem find_name {σ : Type} {keys : List (ConfigKey σ)}
    (h : (keys.map fun k => ascii k.name).Nodup) {k : ConfigKey σ} (hk : k ∈ keys) :
    keys.find? (fun k' => ascii k'.name = ascii k.name) = some k := by
  induction keys with
  | nil => cases hk
  | cons x keys ih =>
    rw [List.map_cons, List.nodup_cons] at h
    rcases List.mem_cons.mp hk with rfl | hk
    · rw [List.find?_cons_of_pos (by simp)]
    · rw [List.find?_cons_of_neg, ih h.2 hk]
      intro he
      exact h.1 (of_decide_eq_true he ▸ List.mem_map.mpr ⟨k, hk, rfl⟩)

/-- The branch of a key. -/
theorem KeysOk.assign {σ : Type} {keys : List (ConfigKey σ)} (h : KeysOk keys) {k : ConfigKey σ}
    (hk : k ∈ keys) (value : Bytes) (s : σ) :
    assign keys (ascii k.name) value s = k.set value s := by
  unfold Uproxy.assign
  rw [find_name h.nodup hk]

theorem KeysOk.keyText {σ : Type} {keys : List (ConfigKey σ)} (h : KeysOk keys) {k : ConfigKey σ}
    (hk : k ∈ keys) : KeyText (ascii k.name) :=
  h.text _ (List.mem_map.mpr ⟨k, hk, rfl⟩)

/-! ## Invariants of the reader -/

theorem except_map_eq_ok {ε α β : Type} {f : α → β} {x : Except ε α} {b : β}
    (h : x.map f = .ok b) : ∃ a, x = .ok a ∧ f a = b := by
  cases x with
  | error e => cases h
  | ok a => exact ⟨a, rfl, Except.ok.inj h⟩

section Keeps

variable {σ : Type} {P : σ → Prop}

/-- An assignment to the key keeps `P`. -/
def ConfigKey.Keeps (k : ConfigKey σ) (P : σ → Prop) : Prop :=
  ∀ value s s', P s → k.set value s = .ok s' → P s'

theorem keeps_stringKey {name : String} {put : Bytes → σ → σ} (h : ∀ v s, P s → P (put v s)) :
    (stringKey name put).Keeps P := by
  intro value s s' hP hs
  exact Except.ok.inj hs ▸ h _ s hP

theorem keeps_portKey {name : String} {put : UInt16 → σ → σ} (h : ∀ v s, P s → P (put v s)) :
    (portKey name put).Keeps P := by
  intro value s s' hP hs
  obtain ⟨v, -, rfl⟩ := except_map_eq_ok hs
  exact h v s hP

theorem keeps_u32Key {name : String} {put : UInt32 → σ → σ} (h : ∀ v s, P s → P (put v s)) :
    (u32Key name put).Keeps P := by
  intro value s s' hP hs
  obtain ⟨v, -, rfl⟩ := except_map_eq_ok hs
  exact h v s hP

theorem keeps_assign {keys : List (ConfigKey σ)} (h : ∀ k ∈ keys, k.Keeps P) {key value : Bytes}
    {s s' : σ} (hP : P s) (hs : assign keys key value s = .ok s') : P s' := by
  unfold assign at hs
  split at hs
  · exact Except.ok.inj hs ▸ hP
  · next k hk => exact h k (List.mem_of_find?_eq_some hk) value s s' hP hs

end Keeps

/-- What an assignment leaves alone: the number of upstreams, and the protocols unless it reads
them. -/
def AssignFrame (cfg cfg' : ProxyConfig) : Prop :=
  cfg'.upstreams.length = cfg.upstreams.length ∧
    (cfg'.tls.alpn = cfg.tls.alpn ∨ ∃ value, cfg'.tls.alpn = readAlpn value)

/-- **The frame of an assignment**, in any section. -/
theorem assignIn_frame {sect : ConfigSection} {cfg cfg' : ProxyConfig} {key value : Bytes}
    (hs : assignIn sect cfg key value = .ok cfg') : AssignFrame cfg cfg' := by
  have h0 : AssignFrame cfg cfg := ⟨rfl, Or.inl rfl⟩
  cases sect with
  | root => exact Except.ok.inj hs ▸ h0
  | proxy =>
    refine keeps_assign ?_ h0 hs
    simp only [proxyKeys, List.forall_mem_cons]
    exact ⟨keeps_stringKey fun _ _ h => h, keeps_portKey fun _ _ h => h,
      keeps_portKey fun _ _ h => h, keeps_u32Key fun _ _ h => h, List.forall_mem_nil _⟩
  | tls =>
    refine keeps_assign ?_ h0 hs
    simp only [tlsKeys, List.forall_mem_cons]
    refine ⟨keeps_stringKey fun _ _ h => h, keeps_stringKey fun _ _ h => h,
      keeps_stringKey fun _ _ h => h, fun value s s' h hset => ?_, List.forall_mem_nil _⟩
    exact Except.ok.inj hset ▸ ⟨h.1, Or.inr ⟨value, rfl⟩⟩
  | pool =>
    refine keeps_assign ?_ h0 hs
    simp only [poolKeys, List.forall_mem_cons]
    exact ⟨keeps_u32Key fun _ _ h => h, keeps_u32Key fun _ _ h => h, keeps_u32Key fun _ _ h => h,
      keeps_u32Key fun _ _ h => h, List.forall_mem_nil _⟩
  | log =>
    refine keeps_assign ?_ h0 hs
    simp only [logKeys, List.forall_mem_cons]
    exact ⟨keeps_stringKey fun _ _ h => h, keeps_stringKey fun _ _ h => h,
      keeps_stringKey fun _ _ h => h, List.forall_mem_nil _⟩
  | upstream =>
    rw [assignIn, assignUpstream] at hs
    split at hs
    · exact Except.ok.inj hs ▸ h0
    · next u hu =>
      obtain ⟨u', -, rfl⟩ := except_map_eq_ok hs
      refine ⟨?_, Or.inl rfl⟩
      have hne : cfg.upstreams ≠ [] := fun hnil => by simp [hnil] at hu
      have := List.length_pos_iff.mpr hne
      simp only [List.length_append, List.length_dropLast, List.length_singleton]
      omega

section Kept

variable {P : ProxyConfig → Prop} (hframe : ∀ cfg cfg', AssignFrame cfg cfg' → P cfg → P cfg')
  (hup : ∀ cfg us, P cfg → P { cfg with upstreams := us })

include hframe hup

theorem readLine_kept {r r' : ConfigReader} {line : Bytes} (hP : P r.cfg)
    (hs : readLine r line = .ok r') : P r'.cfg := by
  unfold readLine at hs
  simp only at hs
  split_ifs at hs
  -- a blank line, the headers, and an assignment
  iterate 5 exact Except.ok.inj hs ▸ hP
  · exact Except.ok.inj hs ▸ hup r.cfg _ hP
  · split at hs
    · cases hs
    · obtain ⟨cfg, hcfg, rfl⟩ := except_map_eq_ok hs
      exact hframe _ _ (assignIn_frame hcfg) hP

/-- **What no assignment and no new upstream ends holds of every configuration that is read**, if it
holds of the default. -/
theorem configFromFile_kept (h0 : P {}) {files : Bytes → Option Bytes} {path : Bytes}
    {cfg : ProxyConfig} (hcfg : configFromFile files path = .ok cfg) : P cfg := by
  unfold configFromFile at hcfg
  split at hcfg
  · split_ifs at hcfg
    exact Except.ok.inj hcfg ▸ h0
  · obtain ⟨r, hr, rfl⟩ := except_map_eq_ok hcfg
    exact Run.foldlM_inv (P := fun r : ConfigReader => P r.cfg)
      (fun _ _ _ hP hs => readLine_kept hframe hup hP hs) _ h0 hr

end Kept

end Uproxy
