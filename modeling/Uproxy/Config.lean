import Uproxy.Basic

/-!
# Configuration (`config.h`, `config_validate`)

Whether a path names a regular file is an input (`isFile`): it stands for `stat` and `S_ISREG`.

* `configValidate_eq_ok_iff`: `config_validate` hands back the configuration it is given, and
  accepts it exactly if it is `Valid`. Each upstream is looked at by itself; no check compares two
  of them.
-/

namespace Uproxy

/-- `UpstreamConfig::Proto`. -/
inductive UpstreamConfig.Proto where
  | http1 | h2c
  deriving DecidableEq, Repr

/-- `UpstreamConfig`. -/
structure UpstreamConfig where
  name    : Bytes := []
  addr    : Bytes := []
  port    : UInt16 := 0
  weight  : UInt32 := 1
  healthy : Bool := true
  proto   : UpstreamConfig.Proto := .http1
  deriving DecidableEq, Repr

/-- `TLSConfig`. -/
structure TLSConfig where
  certFile   : Bytes := []
  keyFile    : Bytes := []
  minVersion : Bytes := ascii "tls1.2"
  alpn       : List Bytes := [ascii "h2", ascii "http/1.1"]
  enabled    : Bool := true
  deriving DecidableEq, Repr

/-- `PoolConfig`. -/
structure PoolConfig where
  maxConnsPerUpstream : UInt32 := 64
  connectTimeoutMs    : UInt32 := 5000
  idleTimeoutMs       : UInt32 := 60000
  maxKeepalive        : UInt32 := 1000
  deriving DecidableEq, Repr

/-- `LogConfig`. -/
structure LogConfig where
  level  : Bytes := ascii "info"
  format : Bytes := ascii "text"
  file   : Bytes := []
  deriving DecidableEq, Repr

/-- `ProxyConfig`. -/
structure ProxyConfig where
  listenAddr    : Bytes := ascii "0.0.0.0"
  listenPort    : UInt16 := 8080
  tlsPort       : UInt16 := 8443
  workerThreads : UInt32 := 0
  tls           : TLSConfig := {}
  pool          : PoolConfig := {}
  log           : LogConfig := {}
  upstreams     : List UpstreamConfig := []
  deriving DecidableEq, Repr

/-- `file_exists`. -/
def fileExists (isFile : Bytes → Bool) (path : Bytes) : Bool := path ≠ [] && isFile path

/-- The levels `config_validate` knows. -/
def logLevels : List Bytes :=
  [ascii "trace", ascii "debug", ascii "info", ascii "warn", ascii "error"]

/-- The test of `config_validate` on one upstream. -/
def UpstreamConfig.isInvalid (u : UpstreamConfig) : Bool :=
  u.addr == [] || u.port == 0 || u.weight == 0

/-- `config_validate`. -/
def configValidate (isFile : Bytes → Bool) (cfg : ProxyConfig) : Result ProxyConfig :=
  if cfg.upstreams = [] then .error (.fromCode .configInvalid "zero upstreams")
  else if ¬ logLevels.contains cfg.log.level then
    .error (.fromCode .configInvalid "invalid log level")
  else if ¬ [ascii "json", ascii "text"].contains cfg.log.format then
    .error (.fromCode .configInvalid "invalid log format")
  else if cfg.upstreams.any UpstreamConfig.isInvalid then
    .error (.fromCode .configInvalid "invalid upstream")
  else if cfg.tls.enabled ∧
      (¬ fileExists isFile cfg.tls.certFile ∨ ¬ fileExists isFile cfg.tls.keyFile) then
    .error (.fromCode .configInvalid "missing TLS certificate or key")
  else if ¬ [ascii "tls1.2", ascii "tls1.3"].contains cfg.tls.minVersion then
    .error (.fromCode .configInvalid "invalid TLS minimum version")
  else .ok cfg

/-- What `config_validate` asks of a configuration. -/
structure ProxyConfig.Valid (isFile : Bytes → Bool) (cfg : ProxyConfig) : Prop where
  upstreams_ne_nil : cfg.upstreams ≠ []
  level_mem        : cfg.log.level ∈ logLevels
  format_mem       : cfg.log.format ∈ [ascii "json", ascii "text"]
  upstream_valid   : ∀ u ∈ cfg.upstreams, u.addr ≠ [] ∧ u.port ≠ 0 ∧ u.weight ≠ 0
  tls_files        : cfg.tls.enabled = true → fileExists isFile cfg.tls.certFile = true ∧
    fileExists isFile cfg.tls.keyFile = true
  minVersion_mem   : cfg.tls.minVersion ∈ [ascii "tls1.2", ascii "tls1.3"]

theorem UpstreamConfig.isInvalid_eq_false_iff (u : UpstreamConfig) :
    u.isInvalid = false ↔ u.addr ≠ [] ∧ u.port ≠ 0 ∧ u.weight ≠ 0 := by
  simp [isInvalid, and_assoc]

/-- **What `config_validate` accepts.** -/
theorem configValidate_eq_ok_iff {isFile : Bytes → Bool} {cfg cfg' : ProxyConfig} :
    configValidate isFile cfg = .ok cfg' ↔ cfg' = cfg ∧ cfg.Valid isFile := by
  have hany : ¬ cfg.upstreams.any UpstreamConfig.isInvalid ↔
      ∀ u ∈ cfg.upstreams, u.addr ≠ [] ∧ u.port ≠ 0 ∧ u.weight ≠ 0 := by
    simp only [← UpstreamConfig.isInvalid_eq_false_iff, List.any_eq_true, not_exists, not_and,
      Bool.not_eq_true]
  have htls : ¬ (cfg.tls.enabled ∧
      (¬ fileExists isFile cfg.tls.certFile ∨ ¬ fileExists isFile cfg.tls.keyFile)) ↔
      (cfg.tls.enabled = true → fileExists isFile cfg.tls.certFile = true ∧
        fileExists isFile cfg.tls.keyFile = true) := by
    rw [not_and, not_or, not_not, not_not]
  unfold configValidate
  simp only [List.contains_iff_mem]
  constructor
  · intro h
    split_ifs at h with h1 h2 h3 h4 h5 h6
    exact ⟨(Except.ok.inj h).symm, h1, h2, h3, hany.mp h4, htls.mp h5, h6⟩
  · rintro ⟨rfl, hv⟩
    rw [if_neg hv.upstreams_ne_nil, if_neg (not_not.mpr hv.level_mem),
      if_neg (not_not.mpr hv.format_mem), if_neg (hany.mpr hv.upstream_valid),
      if_neg (htls.mpr hv.tls_files), if_neg (not_not.mpr hv.minVersion_mem)]

end Uproxy
