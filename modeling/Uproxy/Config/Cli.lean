import Uproxy.Config.File
import Uproxy.Http1.Serializer
import Uproxy.Lib.Update
import Mathlib.Data.List.Forall2

/-!
# The command line (`config_apply_cli`)

The options are applied from left to right to one configuration. `--config` replaces it as a whole
by that of a file, so whatever stands in front of it is lost.

`Override` is an option other than `--config` with its value, and `Setting` what it comes to once
its value is read. Reading does not depend on the configuration, so the options behind `--config`
are a list of settings applied to the file's configuration (`configApplyCli_eq_ok`).

* `parseUpstreamCli`: an `--upstream` specification;
* `overriding_setting`: of two settings of one option the later one prevails, and settings of
  different options commute;
* **`cli_overrides`**: the options prevail over the file wherever `--config` stands exactly if they
  say nothing that the file does not say (`Agrees`).
-/

namespace Uproxy

open Lib Lib.Search Lib.Update

/-! ## The code -/

/-- `parse_upstream_cli`. -/
def parseUpstreamCli (spec : Bytes) : Result UpstreamConfig :=
  match find [colon] spec with
  | none => .error (.fromCode .configInvalid "upstream requires addr:port")
  | some c =>
    let addr := spec.take c
    let next := findFrom [colon] spec (c + 1)
    let port :=
      match next with
      | none => spec.drop (c + 1)
      | some n => (spec.drop (c + 1)).take (n - c - 1)
    match parsePort port "invalid upstream port" with
    | .error e => .error e
    | .ok port =>
      let cfg : UpstreamConfig := { name := addr ++ colon :: decimal port.toNat, addr, port }
      match next with
      | none => .ok cfg
      | some n =>
        let suffix := spec.drop (n + 1)
        if ¬ (ascii "weight=").isPrefixOf suffix then
          .error (.fromCode .configInvalid "unsupported upstream option")
        else
          match parseU32 (suffix.drop (ascii "weight=").length) "invalid upstream weight" with
          | .error _ => .error (.fromCode .configInvalid "invalid upstream weight")
          | .ok weight =>
            if weight = 0 then .error (.fromCode .configInvalid "invalid upstream weight")
            else .ok { cfg with weight }

section

variable (files : Bytes → Option Bytes)

/-- The options that take a value. -/
def valueOptions : List (ConfigKey ProxyConfig) :=
  [⟨"--config", fun value _ => configFromFile files value⟩,
    ⟨"--listen-addr", fun value base => .ok { base with listenAddr := value }⟩,
    ⟨"--listen-port", fun value base =>
      (parsePort value "listen port").map fun port => { base with listenPort := port }⟩,
    ⟨"--tls-port", fun value base =>
      (parsePort value "tls port").map fun port => { base with tlsPort := port }⟩,
    ⟨"--upstream", fun value base =>
      (parseUpstreamCli value).map fun u => { base with upstreams := base.upstreams ++ [u] }⟩,
    ⟨"--log-level", fun value base => .ok { base with log.level := value }⟩,
    ⟨"--workers", fun value base =>
      (parseU32 value "workers").map fun n => { base with workerThreads := n }⟩]

/-- The loop of `config_apply_cli`. An argument that is no option is skipped. -/
def applyArgs (base : ProxyConfig) : List Bytes → Result ProxyConfig
  | [] => .ok base
  | arg :: args =>
    match (valueOptions files).find? fun o => ascii o.name = arg with
    | some o =>
      match args with
      | [] => .error (.fromCode .configInvalid (o.name ++ " requires value"))
      | value :: args =>
        match o.set value base with
        | .error e => .error e
        | .ok base => applyArgs base args
    | none =>
      applyArgs (if arg = ascii "--no-tls" then { base with tls.enabled := false } else base) args

/-- `config_apply_cli`; the first argument is the program. -/
def configApplyCli (base : ProxyConfig) (argv : List Bytes) : Result ProxyConfig :=
  applyArgs files base (argv.drop 1)

end

/-! ## Options -/

/-- An option other than `--config`, with its value. -/
inductive Override where
  | listenAddr (value : Bytes)
  | listenPort (value : Bytes)
  | tlsPort (value : Bytes)
  | upstream (spec : Bytes)
  | noTls
  | logLevel (value : Bytes)
  | workers (value : Bytes)
  deriving DecidableEq, Repr

/-- The arguments of an option. -/
def Override.args : Override → List Bytes
  | .listenAddr value => [ascii "--listen-addr", value]
  | .listenPort value => [ascii "--listen-port", value]
  | .tlsPort value => [ascii "--tls-port", value]
  | .upstream spec => [ascii "--upstream", spec]
  | .noTls => [ascii "--no-tls"]
  | .logLevel value => [ascii "--log-level", value]
  | .workers value => [ascii "--workers", value]

/-- An option whose value was read. -/
inductive Setting where
  | listenAddr (value : Bytes)
  | listenPort (port : UInt16)
  | tlsPort (port : UInt16)
  | upstream (u : UpstreamConfig)
  | noTls
  | logLevel (value : Bytes)
  | workers (n : UInt32)
  deriving DecidableEq, Repr

/-- The option of a setting. -/
inductive OptionName where
  | listenAddr | listenPort | tlsPort | upstream | noTls | logLevel | workers
  deriving DecidableEq, Repr

def Setting.name : Setting → OptionName
  | .listenAddr _ => .listenAddr
  | .listenPort _ => .listenPort
  | .tlsPort _ => .tlsPort
  | .upstream _ => .upstream
  | .noTls => .noTls
  | .logLevel _ => .logLevel
  | .workers _ => .workers

def Setting.apply : Setting → ProxyConfig → ProxyConfig
  | .listenAddr value, base => { base with listenAddr := value }
  | .listenPort port, base => { base with listenPort := port }
  | .tlsPort port, base => { base with tlsPort := port }
  | .upstream u, base => { base with upstreams := base.upstreams ++ [u] }
  | .noTls, base => { base with tls.enabled := false }
  | .logLevel value, base => { base with log.level := value }
  | .workers n, base => { base with workerThreads := n }

/-- The setting has its value in a configuration; an upstream is present. -/
def Setting.HoldsIn (cfg : ProxyConfig) : Setting → Prop
  | .listenAddr value => cfg.listenAddr = value
  | .listenPort port => cfg.listenPort = port
  | .tlsPort port => cfg.tlsPort = port
  | .upstream u => u ∈ cfg.upstreams
  | .noTls => cfg.tls.enabled = false
  | .logLevel value => cfg.log.level = value
  | .workers n => cfg.workerThreads = n

def Override.parse : Override → Result Setting
  | .listenAddr value => .ok (.listenAddr value)
  | .listenPort value => (parsePort value "listen port").map .listenPort
  | .tlsPort value => (parsePort value "tls port").map .tlsPort
  | .upstream spec => (parseUpstreamCli spec).map .upstream
  | .noTls => .ok .noTls
  | .logLevel value => .ok (.logLevel value)
  | .workers value => (parseU32 value "workers").map .workers

/-- Options and their settings. -/
def SettingsOf : List Override → List Setting → Prop :=
  List.Forall₂ fun o s => o.parse = .ok s

theorem SettingsOf.unique {os : List Override} {ss ss' : List Setting} (h : SettingsOf os ss)
    (h' : SettingsOf os ss') : ss = ss' :=
  List.right_unique_forall₂' (fun _ _ _ h h' => Except.ok.inj (h.symm.trans h')) h h'

/-- The arguments of some options and one `--config` among them. -/
def cliArgs (path : Bytes) (pre post : List Override) : List Bytes :=
  pre.flatMap Override.args ++ (ascii "--config" :: path :: post.flatMap Override.args)

/-! ## The loop -/

section

variable {files : Bytes → Option Bytes}

theorem nodup_valueOptions : ((valueOptions files).map fun o => ascii o.name).Nodup := by
  show [ascii "--config", ascii "--listen-addr", ascii "--listen-port", ascii "--tls-port",
    ascii "--upstream", ascii "--log-level", ascii "--workers"].Nodup
  decide +kernel

/-- An option with its value. -/
theorem applyArgs_value {o : ConfigKey ProxyConfig} (ho : o ∈ valueOptions files)
    (base : ProxyConfig) (value : Bytes) (args : List Bytes) :
    applyArgs files base (ascii o.name :: value :: args) =
      match o.set value base with
      | .error e => .error e
      | .ok base => applyArgs files base args := by
  rw [applyArgs, find_name nodup_valueOptions ho]

theorem applyArgs_noTls (base : ProxyConfig) (args : List Bytes) :
    applyArgs files base (ascii "--no-tls" :: args) =
      applyArgs files { base with tls.enabled := false } args := by
  have hfind : (valueOptions files).find? (fun o => ascii o.name = ascii "--no-tls") = none := by
    refine List.find?_eq_none.mpr fun o ho he => ?_
    have hmem : ascii o.name ∈ (valueOptions files).map fun o => ascii o.name :=
      List.mem_map.mpr ⟨o, ho, rfl⟩
    rw [of_decide_eq_true he] at hmem
    have hno : ascii "--no-tls" ∉ [ascii "--config", ascii "--listen-addr", ascii "--listen-port",
      ascii "--tls-port", ascii "--upstream", ascii "--log-level", ascii "--workers"] := by
      decide +kernel
    exact hno hmem
  rw [applyArgs, hfind]
  simp only [if_true]

/-- **One option is its setting**, or its error. -/
theorem applyArgs_override (o : Override) (base : ProxyConfig) (args : List Bytes) :
    applyArgs files base (o.args ++ args) =
      match o.parse with
      | .error e => .error e
      | .ok s => applyArgs files (s.apply base) args := by
  cases o with
  | listenAddr value => exact applyArgs_value (.tail _ (.head _)) base value args
  | listenPort value =>
    refine (applyArgs_value (.tail _ (.tail _ (.head _))) base value args).trans ?_
    simp only [Override.parse]
    cases parsePort value "listen port" <;> rfl
  | tlsPort value =>
    refine (applyArgs_value (.tail _ (.tail _ (.tail _ (.head _)))) base value args).trans ?_
    simp only [Override.parse]
    cases parsePort value "tls port" <;> rfl
  | upstream spec =>
    refine (applyArgs_value (.tail _ (.tail _ (.tail _ (.tail _ (.head _))))) base spec args).trans
      ?_
    simp only [Override.parse]
    cases parseUpstreamCli spec <;> rfl
  | noTls => exact applyArgs_noTls base args
  | logLevel value =>
    exact applyArgs_value (.tail _ (.tail _ (.tail _ (.tail _ (.tail _ (.head _)))))) base value
      args
  | workers value =>
    refine (applyArgs_value (.tail _ (.tail _ (.tail _ (.tail _ (.tail _ (.tail _ (.head _)))))))
      base value args).trans ?_
    simp only [Override.parse]
    cases parseU32 value "workers" <;> rfl

/-- **Some options are their settings**, one after the other. -/
theorem applyArgs_eq_ok {rest : List Bytes} {cfg : ProxyConfig} : ∀ {os : List Override}
    {base : ProxyConfig}, applyArgs files base (os.flatMap Override.args ++ rest) = .ok cfg ↔
      ∃ ss, SettingsOf os ss ∧ applyArgs files (applyAll Setting.apply ss base) rest = .ok cfg
  | [], base => by
    constructor
    · exact fun h => ⟨[], .nil, h⟩
    · rintro ⟨_, ⟨⟩, h⟩
      exact h
  | o :: os, base => by
    rw [List.flatMap_cons, List.append_assoc, applyArgs_override]
    cases hs : o.parse with
    | error e =>
      refine iff_of_false (fun h => by cases h) ?_
      rintro ⟨_, hss, -⟩
      obtain ⟨s, _, ho, -, rfl⟩ := List.forall₂_cons_left_iff.mp hss
      rw [hs] at ho
      cases ho
    | ok s =>
      refine applyArgs_eq_ok.trans ?_
      constructor
      · rintro ⟨ss, hss, h⟩
        exact ⟨s :: ss, .cons hs hss, h⟩
      · rintro ⟨_, hss, h⟩
        obtain ⟨s', ss, ho, hss', rfl⟩ := List.forall₂_cons_left_iff.mp hss
        obtain rfl := Except.ok.inj (hs.symm.trans ho)
        exact ⟨ss, hss', h⟩

/-- **What a command line with one `--config` comes to.** -/
theorem configApplyCli_eq_ok {base cfg : ProxyConfig} {prog path : Bytes}
    {pre post : List Override} :
    configApplyCli files base (prog :: cliArgs path pre post) = .ok cfg ↔
      ∃ F ss ss', configFromFile files path = .ok F ∧ SettingsOf pre ss ∧ SettingsOf post ss' ∧
        cfg = applyAll Setting.apply ss' F := by
  unfold configApplyCli cliArgs
  rw [List.drop_one, List.tail_cons, applyArgs_eq_ok]
  have hload : ∀ base', applyArgs files base'
      (ascii "--config" :: path :: post.flatMap Override.args) = .ok cfg ↔
      ∃ F, configFromFile files path = .ok F ∧
        applyArgs files F (post.flatMap Override.args) = .ok cfg := by
    intro base'
    rw [applyArgs_value (o := ⟨"--config", fun value _ => configFromFile files value⟩) (.head _)]
    dsimp only
    cases configFromFile files path with
    | error e => simp
    | ok F => simp
  have hpost : ∀ F, applyArgs files F (post.flatMap Override.args) = .ok cfg ↔
      ∃ ss', SettingsOf post ss' ∧ cfg = applyAll Setting.apply ss' F := by
    intro F
    have := @applyArgs_eq_ok files [] cfg post F
    rw [List.append_nil] at this
    refine this.trans (exists_congr fun ss' => and_congr_right fun _ => ?_)
    rw [applyArgs, Except.ok.injEq, eq_comm]
  constructor
  · rintro ⟨ss, hss, h⟩
    obtain ⟨F, hF, h⟩ := (hload _).mp h
    obtain ⟨ss', hss', rfl⟩ := (hpost F).mp h
    exact ⟨F, ss, ss', hF, hss, hss', rfl⟩
  · rintro ⟨F, ss, ss', hF, hss, hss', rfl⟩
    exact ⟨ss, hss, (hload _).mpr ⟨F, hF, (hpost F).mpr ⟨ss', hss', rfl⟩⟩⟩

end

/-! ## Options that count -/

/-- The option counts: no later one of the same name prevails over it. -/
def Prevails (s : Setting) (later : List Setting) : Prop :=
  s.name = .upstream ∨ ∀ s' ∈ later, s'.name ≠ s.name

/-! ## Options against the file -/

/-- Settings of different options commute, and of two settings of one option the later prevails;
upstreams add up. -/
theorem overriding_setting :
    Overriding Setting.apply Setting.name fun s => s.name ≠ .upstream := by
  constructor
  · intro a b _ _ hk s
    cases a <;> cases b <;> first | rfl | exact absurd rfl hk
  · intro a b ha _ hk s
    cases a <;> cases b <;> first | rfl | exact absurd rfl ha | cases hk

/-- A setting has its value exactly if it changes nothing. -/
theorem apply_eq_self_iff {s : Setting} (hs : s.name ≠ .upstream) (cfg : ProxyConfig) :
    s.apply cfg = cfg ↔ s.HoldsIn cfg := by
  obtain ⟨listenAddr, listenPort, tlsPort, workerThreads, ⟨cert, key, min, alpn, enabled⟩, pool,
    ⟨level, format, file⟩, us⟩ := cfg
  cases s with
  | upstream u => exact absurd rfl hs
  | _ => simp [Setting.apply, Setting.HoldsIn, eq_comm]

/-- The command line prevails over the file: `--config` may stand anywhere among the options, and
each option that counts has its value in the result. -/
structure Honoured (files : Bytes → Option Bytes) (base : ProxyConfig) (prog path : Bytes)
    (others : List Override) (cfg : ProxyConfig) : Prop where
  anywhere : ∀ pre post, pre ++ post = others →
    configApplyCli files base (prog :: cliArgs path pre post) = .ok cfg
  present  : ∀ ss, SettingsOf others ss → ∀ a s b, ss = a ++ s :: b → Prevails s b → s.HoldsIn cfg

/-- The options say nothing that a configuration does not say. -/
structure Agrees (F : ProxyConfig) (ss : List Setting) : Prop where
  no_upstream : ∀ s ∈ ss, s.name ≠ .upstream
  holds       : ∀ a s b, ss = a ++ s :: b → (∀ s' ∈ b, s'.name ≠ s.name) → s.HoldsIn F

/-- Options that agree with a configuration leave it as it is. -/
theorem Agrees.applyAll {F : ProxyConfig} {ss : List Setting} (h : Agrees F ss) :
    applyAll Setting.apply ss F = F :=
  overriding_setting.foldl_fixed h.no_upstream fun a s b he hk =>
    (apply_eq_self_iff (h.no_upstream s (he ▸ by simp)) F).mpr (h.holds a s b he hk)

theorem Agrees.suffix {F : ProxyConfig} {a b : List Setting} (h : Agrees F (a ++ b)) :
    Agrees F b :=
  ⟨fun s hs => h.no_upstream s (List.mem_append_right a hs),
    fun a' s b' he hk => h.holds (a ++ a') s b' (by rw [he, List.append_assoc]) hk⟩

/-- Settings only add upstreams. -/
theorem length_upstreams_applyAll : ∀ (ss : List Setting) (cfg : ProxyConfig),
    cfg.upstreams.length ≤ (applyAll Setting.apply ss cfg).upstreams.length
  | [], _ => Nat.le_refl _
  | s :: ss, cfg => by
    refine Nat.le_trans ?_ (length_upstreams_applyAll ss (s.apply cfg))
    cases s with
    | upstream u => simp [Setting.apply]
    | _ => exact Nat.le_refl _

section

variable {files : Bytes → Option Bytes} {base cfg F : ProxyConfig} {prog path : Bytes}
  {os : List Override} {ss : List Setting}

/-- With `--config` moved to the end, the file alone decides; moved elsewhere, nothing changes. -/
theorem Honoured.agrees (h : Honoured files base prog path os cfg)
    (hF : configFromFile files path = .ok F) (hss : SettingsOf os ss) : Agrees F ss := by
  -- with `--config` in front of the settings `b`, they alone count
  have hmove : ∀ a b, ss = a ++ b → applyAll Setting.apply b F = cfg := by
    intro a b hab
    rw [hab] at hss
    obtain ⟨F', _, ss', hF', -, hss', he⟩ := configApplyCli_eq_ok.mp
      (h.anywhere _ _ (List.take_append_drop a.length os))
    obtain rfl := Except.ok.inj (hF.symm.trans hF')
    rw [he, hss'.unique (List.forall₂_drop_append _ a b hss)]
  have hlast : F = cfg := hmove ss [] (List.append_nil _).symm
  constructor
  · intro s hs hup
    obtain ⟨a, b, hab⟩ := List.append_of_mem hs
    have hlen := length_upstreams_applyAll b (s.apply F)
    have heq := (hmove a (s :: b) hab).trans hlast.symm
    rw [applyAll_cons] at heq
    rw [heq] at hlen
    cases s with
    | upstream u => simp [Setting.apply] at hlen
    | _ => cases hup
  · intro a s b hab hk
    rw [hlast]
    exact h.present _ hss a s b hab (Or.inr hk)

/-- Options that agree with the file may stand anywhere. -/
theorem Agrees.honoured (h : Agrees F ss) (hF : configFromFile files path = .ok F)
    (hss : SettingsOf os ss) : Honoured files base prog path os F := by
  constructor
  · intro pre post hsplit
    have hpre := List.forall₂_take pre.length hss
    have hpost := List.forall₂_drop pre.length hss
    rw [← hsplit, List.take_left] at hpre
    rw [← hsplit, List.drop_left] at hpost
    refine configApplyCli_eq_ok.mpr ⟨F, _, _, hF, hpre, hpost, ?_⟩
    refine (Agrees.suffix (a := ss.take pre.length) ?_).applyAll.symm
    rwa [List.take_append_drop]
  · intro ss' hss' a s b hab hprev
    obtain rfl := SettingsOf.unique hss' hss
    rcases hprev with hup | hk
    · exact absurd hup (h.no_upstream s (hab ▸ by simp))
    · exact h.holds a s b hab hk

end

/-- **The command line prevails over the file**, wherever `--config` stands, exactly if its options
agree with the file. -/
theorem cli_overrides {files : Bytes → Option Bytes} {base cfg : ProxyConfig} {prog path : Bytes}
    {pre post : List Override}
    (h : configApplyCli files base (prog :: cliArgs path pre post) = .ok cfg) :
    ∃ F ss, configFromFile files path = .ok F ∧ SettingsOf (pre ++ post) ss ∧
      (Honoured files base prog path (pre ++ post) cfg ↔ Agrees F ss) := by
  obtain ⟨F, ss₁, ss₂, hF, hss₁, hss₂, rfl⟩ := configApplyCli_eq_ok.mp h
  have hss : SettingsOf (pre ++ post) (ss₁ ++ ss₂) := List.rel_append hss₁ hss₂
  refine ⟨F, ss₁ ++ ss₂, hF, hss, fun hhon => hhon.agrees hF hss, fun hagree => ?_⟩
  rw [hagree.suffix.applyAll]
  exact hagree.honoured hF hss

/-- A file that sets a port and a level. -/
def agreeingFile : Bytes → Option Bytes := fun _ =>
  some (ascii "[proxy]\nlisten_port = 9000\n[log]\nlevel = \"debug\" # all of it\n")

/-- `uproxy --log-level warn --listen-port 9000 --config c --log-level debug`: the first option does
not count, and the others say what the file says. -/
theorem cli_overrides_agreeing :
    Honoured agreeingFile {} (ascii "uproxy") (ascii "c")
      [.logLevel (ascii "warn"), .listenPort (ascii "9000"), .logLevel (ascii "debug")]
      { listenPort := 9000, log := { level := ascii "debug" } } := by
  have hfile : configFromFile agreeingFile (ascii "c") =
      .ok { listenPort := 9000, log := { level := ascii "debug" } } := by
    decide +kernel
  have hport : (Override.listenPort (ascii "9000")).parse = .ok (.listenPort 9000) := by
    decide +kernel
  have hpre : SettingsOf [.logLevel (ascii "warn"), .listenPort (ascii "9000")]
      [.logLevel (ascii "warn"), .listenPort 9000] := .cons rfl (.cons hport .nil)
  have hpost : SettingsOf [.logLevel (ascii "debug")] [.logLevel (ascii "debug")] := .cons rfl .nil
  obtain ⟨F, ss, hF, hss, hiff⟩ := @cli_overrides agreeingFile {} _ (ascii "uproxy") (ascii "c") _ _
    (configApplyCli_eq_ok.mpr ⟨_, _, _, hfile, hpre, hpost, rfl⟩)
  obtain rfl := Except.ok.inj (hF.symm.trans hfile)
  obtain rfl := hss.unique (List.rel_append hpre hpost)
  refine hiff.mpr ⟨by simp [Setting.name], fun a s b hab hk => ?_⟩
  rcases a with _ | ⟨x, _ | ⟨y, _ | ⟨z, a⟩⟩⟩
  · obtain ⟨rfl, rfl⟩ := List.cons.inj hab
    exact absurd rfl (hk (.logLevel (ascii "debug")) (by simp))
  · obtain ⟨rfl, -⟩ := List.cons.inj (List.cons.inj hab).2
    rfl
  · obtain ⟨rfl, -⟩ := List.cons.inj (List.cons.inj (List.cons.inj hab).2).2
    rfl
  · have := congrArg List.length hab
    simp at this

/-- **Options in front of `--config` are lost**: with an empty file `c`, the address and `--no-tls`
hold in `uproxy --config c --listen-addr 127.0.0.1 --no-tls`, and neither does in
`uproxy --listen-addr 127.0.0.1 --no-tls --config c`. -/
theorem cli_overrides_lost :
    let files : Bytes → Option Bytes := fun _ => some []
    let os := [Override.listenAddr (ascii "127.0.0.1"), .noTls]
    let before := configApplyCli files {} (ascii "uproxy" :: cliArgs (ascii "c") [] os)
    let behind := configApplyCli files {} (ascii "uproxy" :: cliArgs (ascii "c") os [])
    before = .ok { listenAddr := ascii "127.0.0.1", tls := { enabled := false } } ∧
      behind = .ok {} ∧ ¬ Honoured files {} (ascii "uproxy") (ascii "c") os {} := by
  intro files os before behind
  have hparse : SettingsOf os [.listenAddr (ascii "127.0.0.1"), .noTls] :=
    .cons rfl (.cons rfl .nil)
  refine ⟨configApplyCli_eq_ok.mpr ⟨{}, [], _, rfl, .nil, hparse, rfl⟩,
    configApplyCli_eq_ok.mpr ⟨{}, _, [], rfl, hparse, .nil, rfl⟩, fun h => ?_⟩
  have hno := h.present _ hparse [.listenAddr (ascii "127.0.0.1")] .noTls [] rfl (Or.inr (by simp))
  cases hno

end Uproxy
