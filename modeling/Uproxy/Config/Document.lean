import Uproxy.Config.File
import Uproxy.Http1.Serializer
import Mathlib.Data.List.Sublists

/-!
# The documented configuration file, written and read

`document cfg` is a configuration in the format of `uproxy.toml.example`: one assignment a line,
strings in double quotes. `protocol`, which the example does not show, is written for an `h2c`
upstream, since the reader knows no other way to get one.

A `#` in a string is the one thing the reader trips over: it cuts the line there before it knows
about quotes, and takes what is left, the opening quote included, for the string (`cutString`).

* `Reads`: what some lines do to a reader in a section, whatever the number of the line;
* `parseString_quoted`, `parseU32_decimal`, `parsePort_decimal`, `readAlpn_alpnText`: each kind of
  value is read back;
* `readConfig_document`: **the reader returns the configuration with its strings cut**;
* **`config_round_trip`**: so it returns the configuration exactly if no string has a `#`.
-/

namespace Uproxy

open Lib Lib.Search

/-! ## Writing -/

def quoted (s : Bytes) : Bytes := quote :: (s ++ [quote])

def alpnText (alpn : List Bytes) : Bytes :=
  ascii "[" ++ ((ascii ", ").intercalate (alpn.map quoted) ++ ascii "]")

def boolText (b : Bool) : Bytes := if b then ascii "true" else ascii "false"

def proxyLines (cfg : ProxyConfig) : List Bytes :=
  [ascii "[proxy]",
    assignment (ascii "listen_addr") (quoted cfg.listenAddr),
    assignment (ascii "listen_port") (decimal cfg.listenPort.toNat),
    assignment (ascii "tls_port") (decimal cfg.tlsPort.toNat),
    assignment (ascii "worker_threads") (decimal cfg.workerThreads.toNat)]

def tlsLines (tls : TLSConfig) : List Bytes :=
  [ascii "[tls]",
    assignment (ascii "cert_file") (quoted tls.certFile),
    assignment (ascii "key_file") (quoted tls.keyFile),
    assignment (ascii "min_version") (quoted tls.minVersion),
    assignment (ascii "alpn") (alpnText tls.alpn)]

def poolLines (pool : PoolConfig) : List Bytes :=
  [ascii "[pool]",
    assignment (ascii "max_connections_per_upstream") (decimal pool.maxConnsPerUpstream.toNat),
    assignment (ascii "connect_timeout_ms") (decimal pool.connectTimeoutMs.toNat),
    assignment (ascii "idle_timeout_ms") (decimal pool.idleTimeoutMs.toNat),
    assignment (ascii "max_keepalive") (decimal pool.maxKeepalive.toNat)]

def logLines (log : LogConfig) : List Bytes :=
  [ascii "[log]",
    assignment (ascii "level") (quoted log.level),
    assignment (ascii "format") (quoted log.format),
    assignment (ascii "file") (quoted log.file)]

def protocolLines : UpstreamConfig.Proto → List Bytes
  | .http1 => []
  | .h2c => [assignment (ascii "protocol") (quoted (ascii "h2c"))]

def upstreamLines (u : UpstreamConfig) : List Bytes :=
  [ascii "[[upstream]]",
    assignment (ascii "name") (quoted u.name),
    assignment (ascii "addr") (quoted u.addr),
    assignment (ascii "port") (decimal u.port.toNat),
    assignment (ascii "weight") (decimal u.weight.toNat),
    assignment (ascii "healthy") (boolText u.healthy)] ++ protocolLines u.proto

def documentLines (cfg : ProxyConfig) : List Bytes :=
  proxyLines cfg ++ (tlsLines cfg.tls ++ (poolLines cfg.pool ++ (logLines cfg.log ++
    cfg.upstreams.flatMap upstreamLines)))

/-- A configuration in the documented format. -/
def document (cfg : ProxyConfig) : Bytes := (documentLines cfg).flatMap (· ++ [lf])

/-! ## Strings -/

/-- What is read of a string. -/
def cutString (s : Bytes) : Bytes :=
  if s.contains hash then quote :: (cutComment s).rdropWhile isSpace else s

theorem trim_quoted (s : Bytes) : trim (quoted s) = quoted s :=
  Lines.trim_cons_concat (by decide) (by decide) s

theorem parseString_of_quotes (s : Bytes) : parseString (quoted s) = s := by
  unfold parseString
  simp only [trim_quoted]
  have hlen : (quoted s).length = s.length + 2 := by simp [quoted]
  rw [if_pos ⟨by omega, rfl, by rw [quoted, ← List.cons_append, List.getLast?_concat]⟩, hlen]
  exact List.take_left

/-- **A string in quotes is read up to its first `#`.** -/
theorem parseString_quoted {s : Bytes} (hq : quote ∉ s) :
    parseString (trim (cutComment (quoted s))) = cutString s := by
  unfold cutString
  by_cases hh : hash ∈ s
  · rw [if_pos (List.contains_iff_mem.mpr hh)]
    -- the closing quote is cut off
    have hcut : cutComment (quoted s) = quote :: cutComment s := by
      obtain ⟨a, b, rfl, ha⟩ := List.eq_append_cons_of_mem hh
      have hpos : ∀ c ∈ a, decide (c ≠ hash) = true :=
        fun c hc => decide_eq_true fun he => ha (he ▸ hc)
      unfold cutComment quoted
      rw [List.takeWhile_cons_of_pos (by decide), List.append_assoc, List.cons_append,
        List.takeWhile_append_of_pos hpos, List.takeWhile_append_of_pos hpos,
        List.takeWhile_cons_of_neg (by simp), List.takeWhile_cons_of_neg (by simp)]
    have htrim : trim (quote :: cutComment s) = quote :: (cutComment s).rdropWhile isSpace :=
      Lines.trim_cons_neg (by decide) _
    have hidem : trim (quote :: (cutComment s).rdropWhile isSpace) =
        quote :: (cutComment s).rdropWhile isSpace := by
      rw [trim, Lines.trim_cons_neg (by decide), List.rdropWhile_idempotent]
    unfold parseString
    simp only [hcut, htrim, hidem]
    refine if_neg ?_
    rintro ⟨hlen, -, hlast⟩
    obtain ⟨x, t, hx⟩ := List.exists_cons_of_length_pos
      (show 0 < ((cutComment s).rdropWhile isSpace).length by
        rw [List.length_cons] at hlen
        omega)
    rw [hx, List.getLast?_cons_cons, ← hx] at hlast
    have hmem := (List.rdropWhile_prefix isSpace _).subset (List.mem_of_getLast? hlast)
    exact hq ((List.takeWhile_sublist _).subset hmem)
  · rw [if_neg fun hc => hh (List.contains_iff_mem.mp hc)]
    have hcut : cutComment (quoted s) = quoted s := by
      refine takeWhile_ne_eq_self fun hc => ?_
      simp only [quoted, List.mem_cons, List.mem_append, List.not_mem_nil, or_false] at hc
      rcases hc with hc | hc | hc
      · exact absurd hc (by decide)
      · exact hh hc
      · exact absurd hc (by decide)
    rw [hcut, trim_quoted, parseString_of_quotes]

theorem cutString_eq_self_iff {s : Bytes} (hq : quote ∉ s) : cutString s = s ↔ hash ∉ s := by
  unfold cutString
  constructor
  · intro h hh
    rw [if_pos (List.contains_iff_mem.mpr hh)] at h
    exact hq (h ▸ List.mem_cons_self)
  · intro hh
    rw [if_neg fun hc => hh (List.contains_iff_mem.mp hc)]

/-! ## Other values -/

/-- A text without blanks and `#` is read as it is. -/
theorem trim_cutComment_eq_self {s : Bytes} (h : ∀ c ∈ s, isSpace c = false ∧ c ≠ hash) :
    trim (cutComment s) = s := by
  have hcut : cutComment s = s := takeWhile_ne_eq_self fun hc => (h hash hc).2 rfl
  rw [hcut]
  exact Lines.trim_eq_self fun c hc => (h c hc).1

theorem decimal_plain (n : Nat) : ∀ c ∈ decimal n, isSpace c = false ∧ c ≠ hash := by
  intro c hc
  constructor
  · by_contra hs
    have hd : isDigit c = false :=
      forall_byte (P := fun c => ¬ isSpace c = false → isDigit c = false) (by decide +kernel) c hs
    exact decimal_not_mem hd n hc
  · rintro rfl
    exact decimal_not_mem (by decide) n hc

theorem fromCharsU32_decimal {n : Nat} (h : n < 2 ^ 32) :
    fromCharsU32 (decimal n) = some (n, []) := by
  obtain ⟨hnum, hval⟩ := decimal_spec n
  have hread : fromChars 10 (decimal n) = some (n, []) := by
    refine fromChars_eq_some_nil.mpr ⟨hnum, ?_, hval.symm⟩
    rw [hval]
    exact Nat.lt_trans h (by decide)
  rw [fromCharsU32, hread, Option.filter_some_pos (by simpa using h)]

/-- **A number is read back.** -/
theorem parseU32_decimal (n : UInt32) (field : String) :
    parseU32 (trim (cutComment (decimal n.toNat))) field = .ok n := by
  have hplain := decimal_plain n.toNat
  rw [trim_cutComment_eq_self hplain, parseU32, trim,
    Lines.trim_eq_self fun c hc => (hplain c hc).1, fromCharsU32_decimal n.toNat_lt]
  simp

/-- **A port is read back**, unless it is 0. -/
theorem parsePort_decimal {n : UInt16} (h : n ≠ 0) (field : String) :
    parsePort (trim (cutComment (decimal n.toNat))) field = .ok n := by
  have hlt := n.toNat_lt
  have hread := parseU32_decimal n.toUInt32 field
  rw [UInt16.toNat_toUInt32] at hread
  have h0 : n.toNat ≠ 0 := fun h0 => h (UInt16.toNat_inj.mp h0)
  rw [parsePort, hread]
  simp only
  rw [if_neg, UInt16.toUInt16_toUInt32]
  rintro (he | hgt)
  · exact h0 (by simpa using congrArg UInt32.toNat he)
  · rw [gt_iff_lt, UInt32.lt_iff_toNat_lt, UInt16.toNat_toUInt32] at hgt
    have : (65535 : UInt32).toNat = 65535 := rfl
    omega

theorem parseBool_boolText (b : Bool) : parseBool (trim (cutComment (boolText b))) = b := by
  cases b <;> decide +kernel

/-- The protocols in the order of the documented format. -/
def alpnOrder : List Bytes := [ascii "h2", ascii "http/1.1"]

/-- **The protocols are read back**, in their order. -/
theorem readAlpn_alpnText {alpn : List Bytes} (h : alpn.Sublist alpnOrder) :
    readAlpn (trim (cutComment (alpnText alpn))) = alpn ∧ lf ∉ alpnText alpn := by
  have hall : ∀ l ∈ alpnOrder.sublists,
      readAlpn (trim (cutComment (alpnText l))) = l ∧ lf ∉ alpnText l := by decide +kernel
  exact hall alpn (List.mem_sublists.mpr h)

/-! ## Lines -/

/-- What some lines do to a reader with a configuration in a section. -/
structure Reads (ls : List Bytes) (s : ProxyConfig × ConfigSection)
    (s' : ProxyConfig × ConfigSection) : Prop where
  run   : ∀ n, ls.foldlM readLine ⟨s.1, s.2, n⟩ = .ok ⟨s'.1, s'.2, n + ls.length⟩
  no_lf : ∀ l ∈ ls, lf ∉ l

theorem Reads.nil (s : ProxyConfig × ConfigSection) : Reads [] s s :=
  ⟨fun _ => rfl, List.forall_mem_nil _⟩

theorem Reads.cons {l : Bytes} {ls : List Bytes} {cfg cfg' : ProxyConfig}
    {sect sect' : ConfigSection} {t : ProxyConfig × ConfigSection} (hlf : lf ∉ l)
    (h : ∀ n, readLine ⟨cfg, sect, n⟩ l = .ok ⟨cfg', sect', n + 1⟩)
    (hr : Reads ls (cfg', sect') t) : Reads (l :: ls) (cfg, sect) t := by
  refine ⟨fun n => ?_, List.forall_mem_cons.mpr ⟨hlf, hr.no_lf⟩⟩
  rw [List.foldlM_cons, h n]
  refine (hr.run (n + 1)).trans ?_
  rw [List.length_cons, Nat.add_assoc, Nat.add_comm 1]

theorem Reads.append {ls ls' : List Bytes} {s s' s'' : ProxyConfig × ConfigSection}
    (h : Reads ls s s') (h' : Reads ls' s' s'') : Reads (ls ++ ls') s s'' := by
  refine ⟨fun n => ?_, fun l hl => ?_⟩
  · rw [List.foldlM_append, h.run n]
    refine (h'.run (n + ls.length)).trans ?_
    rw [List.length_append, Nat.add_assoc]
  · rcases List.mem_append.mp hl with hl | hl
    · exact h.no_lf l hl
    · exact h'.no_lf l hl

theorem lf_not_mem_assignment {key value : Bytes} (hk : KeyText key) (hv : lf ∉ value) :
    lf ∉ assignment key value := by
  unfold assignment
  simp only [List.mem_append, List.mem_cons, not_or]
  refine ⟨fun hm => ?_, by decide, by decide, by decide, hv⟩
  have := (hk.2 lf hm).1
  exact absurd this (by decide)

theorem lf_not_mem_quoted {s : Bytes} (h : lf ∉ s) : lf ∉ quoted s := by
  unfold quoted
  simp only [List.mem_append, List.mem_cons, List.not_mem_nil, or_false, not_or]
  exact ⟨by decide, h, by decide⟩

/-- The keys of a section act on a part of the configuration. -/
structure SectionView {σ : Type} (sect : ConfigSection) (keys : List (ConfigKey σ))
    (view : σ → ProxyConfig) : Prop where
  keysOk : KeysOk keys
  assign : ∀ key value s,
    assignIn sect (view s) key value = (Uproxy.assign keys key value s).map view

section Keys

variable {σ : Type} {sect : ConfigSection} {keys : List (ConfigKey σ)} {view : σ → ProxyConfig}
  (hv : SectionView sect keys view) {ls : List Bytes} {t : ProxyConfig × ConfigSection}

include hv

theorem Reads.key {k : ConfigKey σ} (hk : k ∈ keys) {value : Bytes} (hlf : lf ∉ value) {s s' : σ}
    (hset : k.set (trim (cutComment value)) s = .ok s') (hr : Reads ls (view s', sect) t) :
    Reads (assignment (ascii k.name) value :: ls) (view s, sect) t := by
  have htext := hv.keysOk.keyText hk
  refine Reads.cons (lf_not_mem_assignment htext hlf) (fun n => ?_) hr
  rw [readLine_assignment htext]
  simp only [hv.assign, hv.keysOk.assign hk, hset, Except.map]

theorem Reads.string {name : String} {put : Bytes → σ → σ} (hk : stringKey name put ∈ keys)
    {s : σ} {text : Bytes} (htext : quote ∉ text ∧ lf ∉ text)
    (hr : Reads ls (view (put (cutString text) s), sect) t) :
    Reads (assignment (ascii name) (quoted text) :: ls) (view s, sect) t := by
  refine Reads.key hv hk (lf_not_mem_quoted htext.2) ?_ hr
  simp only [stringKey, parseString_quoted htext.1]

theorem Reads.port {name : String} {put : UInt16 → σ → σ} (hk : portKey name put ∈ keys)
    {s : σ} {n : UInt16} (hn : n ≠ 0) (hr : Reads ls (view (put n s), sect) t) :
    Reads (assignment (ascii name) (decimal n.toNat) :: ls) (view s, sect) t := by
  refine Reads.key hv hk (decimal_not_mem (by decide) _) ?_ hr
  simp only [portKey, parsePort_decimal hn, Except.map]

theorem Reads.u32 {name : String} {put : UInt32 → σ → σ} (hk : u32Key name put ∈ keys)
    {s : σ} {n : UInt32} (hr : Reads ls (view (put n s), sect) t) :
    Reads (assignment (ascii name) (decimal n.toNat) :: ls) (view s, sect) t := by
  refine Reads.key hv hk (decimal_not_mem (by decide) _) ?_ hr
  simp only [u32Key, parseU32_decimal, Except.map]

end Keys

/-! ## Sections -/

theorem view_proxy : SectionView .proxy proxyKeys fun cfg => cfg :=
  ⟨keysOk_proxy, fun _ _ _ => (congrFun Except.map_id _).symm⟩

theorem view_tls : SectionView .tls tlsKeys fun cfg => cfg :=
  ⟨keysOk_tls, fun _ _ _ => (congrFun Except.map_id _).symm⟩

theorem view_pool : SectionView .pool poolKeys fun cfg => cfg :=
  ⟨keysOk_pool, fun _ _ _ => (congrFun Except.map_id _).symm⟩

theorem view_log : SectionView .log logKeys fun cfg => cfg :=
  ⟨keysOk_log, fun _ _ _ => (congrFun Except.map_id _).symm⟩

theorem view_upstream (cfg : ProxyConfig) (us : List UpstreamConfig) :
    SectionView .upstream upstreamKeys fun u => { cfg with upstreams := us ++ [u] } := by
  refine ⟨keysOk_upstream, fun key value u => ?_⟩
  show assignUpstream _ key value = _
  unfold assignUpstream
  simp only [List.getLast?_concat, List.dropLast_concat]

/-- The strings of a configuration can be written. -/
def Printable (s : Bytes) : Prop := quote ∉ s ∧ lf ∉ s

theorem reads_proxy {cfg : ProxyConfig} (haddr : Printable cfg.listenAddr)
    (hlisten : cfg.listenPort ≠ 0) (htls : cfg.tlsPort ≠ 0) (c : ProxyConfig)
    (sect : ConfigSection) :
    Reads (proxyLines cfg) (c, sect) ({ c with
      listenAddr := cutString cfg.listenAddr
      listenPort := cfg.listenPort
      tlsPort := cfg.tlsPort
      workerThreads := cfg.workerThreads }, .proxy) := by
  refine Reads.cons (by decide) (fun _ => rfl) ?_
  refine Reads.string view_proxy (.head _) haddr ?_
  refine Reads.port view_proxy (.tail _ (.head _)) hlisten ?_
  refine Reads.port view_proxy (.tail _ (.tail _ (.head _))) htls ?_
  exact Reads.u32 view_proxy (.tail _ (.tail _ (.tail _ (.head _)))) (Reads.nil _)

theorem reads_tls {tls : TLSConfig} (hcert : Printable tls.certFile) (hkey : Printable tls.keyFile)
    (hmin : Printable tls.minVersion) (halpn : tls.alpn.Sublist alpnOrder) (c : ProxyConfig)
    (sect : ConfigSection) :
    Reads (tlsLines tls) (c, sect) ({ c with tls := { c.tls with
      certFile := cutString tls.certFile
      keyFile := cutString tls.keyFile
      minVersion := cutString tls.minVersion
      alpn := tls.alpn } }, .tls) := by
  obtain ⟨hread, hlf⟩ := readAlpn_alpnText halpn
  refine Reads.cons (by decide) (fun _ => rfl) ?_
  refine Reads.string view_tls (.head _) hcert ?_
  refine Reads.string view_tls (.tail _ (.head _)) hkey ?_
  refine Reads.string view_tls (.tail _ (.tail _ (.head _))) hmin ?_
  refine Reads.key view_tls (.tail _ (.tail _ (.tail _ (.head _)))) hlf ?_ (Reads.nil _)
  simp only [hread]

theorem reads_pool (pool : PoolConfig) (c : ProxyConfig) (sect : ConfigSection) :
    Reads (poolLines pool) (c, sect) ({ c with pool }, .pool) := by
  refine Reads.cons (by decide) (fun _ => rfl) ?_
  refine Reads.u32 view_pool (.head _) ?_
  refine Reads.u32 view_pool (.tail _ (.head _)) ?_
  refine Reads.u32 view_pool (.tail _ (.tail _ (.head _))) ?_
  exact Reads.u32 view_pool (.tail _ (.tail _ (.tail _ (.head _)))) (Reads.nil _)

theorem reads_log {log : LogConfig} (hlevel : Printable log.level) (hformat : Printable log.format)
    (hfile : Printable log.file) (c : ProxyConfig) (sect : ConfigSection) :
    Reads (logLines log) (c, sect) ({ c with log :=
      ⟨cutString log.level, cutString log.format, cutString log.file⟩ }, .log) := by
  refine Reads.cons (by decide) (fun _ => rfl) ?_
  refine Reads.string view_log (.head _) hlevel ?_
  refine Reads.string view_log (.tail _ (.head _)) hformat ?_
  exact Reads.string view_log (.tail _ (.tail _ (.head _))) hfile (Reads.nil _)

/-- What is read of an upstream. -/
def UpstreamConfig.cut (u : UpstreamConfig) : UpstreamConfig :=
  { u with name := cutString u.name, addr := cutString u.addr }

theorem boolText_not_mem (b : Bool) : lf ∉ boolText b := by cases b <;> decide

/-- An `h2c` upstream has a line of its own. -/
theorem reads_protocol (proto : UpstreamConfig.Proto) (c : ProxyConfig)
    (us : List UpstreamConfig) {u : UpstreamConfig} (hu : u.proto = .http1) :
    Reads (protocolLines proto) ({ c with upstreams := us ++ [u] }, .upstream)
      ({ c with upstreams := us ++ [{ u with proto }] }, .upstream) := by
  cases proto with
  | http1 =>
    have hself : { u with proto := .http1 } = u := by rw [← hu]
    rw [hself]
    exact Reads.nil _
  | h2c =>
    have hread : parseString (trim (cutComment (quoted (ascii "h2c")))) = ascii "h2c" := by
      decide +kernel
    refine Reads.key (view_upstream c us) (s := u)
      (.tail _ (.tail _ (.tail _ (.tail _ (.tail _ (.head _))))))
      (lf_not_mem_quoted (by decide)) ?_ (Reads.nil _)
    simp only [hread, if_true]

theorem reads_upstream {u : UpstreamConfig} (hname : Printable u.name) (haddr : Printable u.addr)
    (hport : u.port ≠ 0) (c : ProxyConfig) (sect : ConfigSection) :
    Reads (upstreamLines u) (c, sect)
      ({ c with upstreams := c.upstreams ++ [u.cut] }, .upstream) := by
  have hv := view_upstream c c.upstreams
  have hheader : ∀ n, readLine ⟨c, sect, n⟩ (ascii "[[upstream]]") =
      .ok ⟨{ c with upstreams := c.upstreams ++ [{}] }, .upstream, n + 1⟩ := fun _ => rfl
  have hprotocol := reads_protocol u.proto c c.upstreams
    (show { u.cut with proto := .http1 }.proto = .http1 from rfl)
  refine Reads.cons (by decide) hheader ?_
  refine Reads.string hv (s := {}) (.head _) hname ?_
  refine Reads.string hv (.tail _ (.head _)) haddr ?_
  refine Reads.port hv (.tail _ (.tail _ (.head _))) hport ?_
  refine Reads.u32 hv (.tail _ (.tail _ (.tail _ (.head _)))) ?_
  refine Reads.key hv (.tail _ (.tail _ (.tail _ (.tail _ (.head _))))) (boolText_not_mem _) ?_
    hprotocol
  simp only [parseBool_boolText, UpstreamConfig.cut]

/-! ## The whole document -/

/-- The strings of a configuration. -/
def UpstreamConfig.strings (u : UpstreamConfig) : List Bytes := [u.name, u.addr]

def ProxyConfig.strings (cfg : ProxyConfig) : List Bytes :=
  [cfg.listenAddr, cfg.tls.certFile, cfg.tls.keyFile, cfg.tls.minVersion, cfg.log.level,
    cfg.log.format, cfg.log.file] ++ cfg.upstreams.flatMap UpstreamConfig.strings

/-- A configuration that can be written: TLS enabled as by default, ports from 1 on, protocols in
their order, and no string with a double quote or a line break. -/
structure ProxyConfig.Writable (cfg : ProxyConfig) : Prop where
  enabled     : cfg.tls.enabled = true
  listen_port : cfg.listenPort ≠ 0
  tls_port    : cfg.tlsPort ≠ 0
  ports       : ∀ u ∈ cfg.upstreams, u.port ≠ 0
  alpn        : cfg.tls.alpn.Sublist alpnOrder
  printable   : ∀ s ∈ cfg.strings, Printable s

/-- What is read of a configuration. -/
def ProxyConfig.cut (cfg : ProxyConfig) : ProxyConfig :=
  { cfg with
    listenAddr := cutString cfg.listenAddr
    tls := { cfg.tls with
      certFile := cutString cfg.tls.certFile
      keyFile := cutString cfg.tls.keyFile
      minVersion := cutString cfg.tls.minVersion }
    log := ⟨cutString cfg.log.level, cutString cfg.log.format, cutString cfg.log.file⟩
    upstreams := cfg.upstreams.map UpstreamConfig.cut }

theorem reads_upstreams : ∀ (us : List UpstreamConfig),
    (∀ u ∈ us, Printable u.name ∧ Printable u.addr ∧ u.port ≠ 0) →
      ∀ (c : ProxyConfig) (sect : ConfigSection), ∃ sect',
        Reads (us.flatMap upstreamLines) (c, sect)
          ({ c with upstreams := c.upstreams ++ us.map UpstreamConfig.cut }, sect')
  | [], _, c, sect => ⟨sect, by rw [List.map_nil, List.append_nil]; exact Reads.nil _⟩
  | u :: us, h, c, sect => by
    obtain ⟨⟨hname, haddr, hport⟩, hus⟩ := List.forall_mem_cons.mp h
    obtain ⟨sect', hr⟩ := reads_upstreams us hus { c with upstreams := c.upstreams ++ [u.cut] }
      .upstream
    refine ⟨sect', ?_⟩
    rw [List.append_assoc] at hr
    exact (reads_upstream hname haddr hport c sect).append hr

/-- **The reader returns the configuration with its strings cut.** -/
theorem readConfig_document {cfg : ProxyConfig} (h : cfg.Writable) :
    readConfig (document cfg) = .ok cfg.cut := by
  obtain ⟨haddr, hcert, hkey, hmin, hlevel, hformat, hfile, hups⟩ :
      Printable cfg.listenAddr ∧ Printable cfg.tls.certFile ∧ Printable cfg.tls.keyFile ∧
        Printable cfg.tls.minVersion ∧ Printable cfg.log.level ∧ Printable cfg.log.format ∧
        Printable cfg.log.file ∧
        ∀ s ∈ cfg.upstreams.flatMap UpstreamConfig.strings, Printable s := by
    simpa only [ProxyConfig.strings, List.cons_append, List.nil_append, List.forall_mem_cons]
      using h.printable
  have hus : ∀ u ∈ cfg.upstreams, Printable u.name ∧ Printable u.addr ∧ u.port ≠ 0 :=
    fun u hu => ⟨hups _ (List.mem_flatMap.mpr ⟨u, hu, .head _⟩),
      hups _ (List.mem_flatMap.mpr ⟨u, hu, .tail _ (.head _)⟩), h.ports u hu⟩
  obtain ⟨sect, hlast⟩ := reads_upstreams cfg.upstreams hus _ .log
  have hall := (reads_proxy haddr h.listen_port h.tls_port {} .root).append
    ((reads_tls hcert hkey hmin h.alpn _ _).append
      ((reads_pool cfg.pool _ _).append ((reads_log hlevel hformat hfile _ _).append hlast)))
  have hlines : Lines.lines lf (document cfg) = documentLines cfg := Lines.lines_flatMap hall.no_lf
  have hrun : (documentLines cfg).foldlM readLine {} = _ := hall.run 0
  rw [readConfig, hlines, hrun]
  simp only [Except.map, ProxyConfig.cut, h.enabled, List.nil_append]

theorem UpstreamConfig.cut_eq_self_iff (u : UpstreamConfig) :
    u.cut = u ↔ ∀ s ∈ u.strings, cutString s = s := by
  cases u
  simp [cut, strings]

theorem map_cut_eq_self_iff (us : List UpstreamConfig) :
    us.map UpstreamConfig.cut = us ↔ ∀ s ∈ us.flatMap UpstreamConfig.strings, cutString s = s := by
  have hmap : us.map UpstreamConfig.cut = us ↔ ∀ u ∈ us, u.cut = u := by
    have := @List.map_inj_left _ _ us UpstreamConfig.cut id
    rwa [List.map_id] at this
  rw [hmap]
  constructor
  · intro h s hs
    obtain ⟨u, hu, hs⟩ := List.mem_flatMap.mp hs
    exact (u.cut_eq_self_iff.mp (h u hu)) s hs
  · exact fun h u hu => u.cut_eq_self_iff.mpr fun s hs => h s (List.mem_flatMap.mpr ⟨u, hu, hs⟩)

/-- Cutting the strings changes nothing exactly if none of them has a `#`. -/
theorem ProxyConfig.cut_eq_self_iff {cfg : ProxyConfig} (h : ∀ s ∈ cfg.strings, quote ∉ s) :
    cfg.cut = cfg ↔ ∀ s ∈ cfg.strings, hash ∉ s := by
  have hcut : (∀ s ∈ cfg.strings, hash ∉ s) ↔ ∀ s ∈ cfg.strings, cutString s = s :=
    forall₂_congr fun s hs => (cutString_eq_self_iff (h s hs)).symm
  rw [hcut]
  obtain ⟨listenAddr, listenPort, tlsPort, workerThreads, ⟨cert, key, min, alpn, enabled⟩, pool,
    ⟨level, format, file⟩, us⟩ := cfg
  simp only [cut, strings, ProxyConfig.mk.injEq, TLSConfig.mk.injEq, LogConfig.mk.injEq,
    map_cut_eq_self_iff, List.cons_append, List.nil_append, List.forall_mem_cons, true_and,
    and_true, and_assoc]

/-- **Configuration round trip.** A configuration that was written in the documented format is read
back as it was exactly if no string of it has a `#`. -/
theorem config_round_trip {cfg : ProxyConfig} (h : cfg.Writable) {files : Bytes → Option Bytes}
    {path : Bytes} (hfile : files path = some (document cfg)) :
    configFromFile files path = .ok cfg ↔ ∀ s ∈ cfg.strings, hash ∉ s := by
  rw [configFromFile, hfile, ← cfg.cut_eq_self_iff fun s hs => (h.printable s hs).1]
  simp only [readConfig_document h, Except.ok.injEq]

/-- Two upstreams, one of them `h2c`. -/
def sampleConfig : ProxyConfig :=
  { listenAddr := ascii "127.0.0.1"
    workerThreads := 4
    tls := { certFile := ascii "a = b", alpn := [ascii "http/1.1"] }
    upstreams := [⟨ascii "one", ascii "10.0.0.1", 80, 10, true, .http1⟩,
      ⟨ascii "two", ascii "10.0.0.2", 8080, 1, false, .h2c⟩] }

theorem writable_sampleConfig : sampleConfig.Writable :=
  ⟨rfl, by decide, by decide, by decide, by decide +kernel, by
    simp only [Printable]
    decide +kernel⟩

/-- `sampleConfig` comes back. -/
theorem config_round_trip_sample :
    configFromFile (fun _ => some (document sampleConfig)) (ascii "c") = .ok sampleConfig :=
  (config_round_trip writable_sampleConfig rfl).mpr (by decide +kernel)

/-- A certificate with a `#` in its path. -/
def hashConfig : ProxyConfig := { tls := { certFile := ascii "/c#1" } }

/-- **A `#` in a string** cuts the string there, and leaves the opening quote in it. -/
theorem config_round_trip_hash :
    hashConfig.Writable ∧
      configFromFile (fun _ => some (document hashConfig)) (ascii "c") =
        .ok { tls := { certFile := [quote] ++ ascii "/c" } } ∧
      configFromFile (fun _ => some (document hashConfig)) (ascii "c") ≠ .ok hashConfig := by
  have hw : hashConfig.Writable :=
    ⟨rfl, by decide, by decide, by decide, by decide +kernel, by
      simp only [Printable]
      decide +kernel⟩
  have hread : configFromFile (fun _ => some (document hashConfig)) (ascii "c") =
      .ok hashConfig.cut := readConfig_document hw
  have hcut : hashConfig.cut = { tls := { certFile := [quote] ++ ascii "/c" } } := by
    decide +kernel
  rw [hread, hcut]
  exact ⟨hw, rfl, by decide +kernel⟩

end Uproxy
