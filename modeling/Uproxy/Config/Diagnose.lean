import Uproxy.Config.File

/-!
# What the configuration file reader refuses

`config_from_file` stops at the first line it cannot take. Two things are wrong with a line: it is
no statement, which is reported with its number, or it gives a key a number that is none or is out
of range, which is reported with the name of the key and without a line. A key the section does not
have, a key in no section and a string that makes no sense are no errors of the reader.

`LineError` says so of one line, from the section it is in alone.

* `readLine_error_iff`: one line;
* `readLines_ok_iff`: what is read without an error, and the section at its end;
* **`config_error_iff`**: the error of a file is that of its first line with one.
-/

namespace Uproxy

open Lib Lib.Search

/-- What is left of a line. -/
def statement (line : Bytes) : Bytes := trim (cutComment line)

/-- The section a line opens. -/
def sectionHeader (t : Bytes) : Option ConfigSection :=
  if t = ascii "[proxy]" then some .proxy
  else if t = ascii "[tls]" then some .tls
  else if t = ascii "[pool]" then some .pool
  else if t = ascii "[log]" then some .log
  else if t = ascii "[[upstream]]" then some .upstream
  else none

/-- The section behind some lines. -/
def sectionAt (ls : List Bytes) : ConfigSection :=
  ls.foldl (fun sect line => (sectionHeader (statement line)).getD sect) .root

/-- The keys of a section that take a number, with the least and the greatest one. -/
def numberKeys : ConfigSection → List (String × Nat × Nat)
  | .proxy => [("listen_port", 1, 65535), ("tls_port", 1, 65535), ("worker_threads", 0, 4294967295)]
  | .pool => [("max_connections_per_upstream", 0, 4294967295),
      ("connect_timeout_ms", 0, 4294967295), ("idle_timeout_ms", 0, 4294967295),
      ("max_keepalive", 0, 4294967295)]
  | .upstream => [("port", 1, 65535), ("weight", 0, 4294967295)]
  | .root | .tls | .log => []

/-- A value is a decimal number in a range. -/
def IsNumber (range : Nat × Nat) (value : Bytes) : Prop :=
  isNumeral (trim value) = true ∧ range.1 ≤ digitsVal 10 (trim value) ∧
    digitsVal 10 (trim value) ≤ range.2

instance instDecidableIsNumber (range : Nat × Nat) (value : Bytes) :
    Decidable (IsNumber range value) :=
  inferInstanceAs (Decidable (_ ∧ _))

/-- The error of a line in a section, if it has one. -/
inductive LineError (sect : ConfigSection) (number : Nat) (line : Bytes) : Error → Prop where
  | noStatement (hne : statement line ≠ []) (hheader : sectionHeader (statement line) = none)
      (heq : equals ∉ statement line) :
      LineError sect number line
        (.fromCode .configSyntax ("syntax error on line " ++ toString number))
  | noNumber {a b : Bytes} {x : String × Nat × Nat}
      (hheader : sectionHeader (statement line) = none)
      (hline : statement line = a ++ equals :: b) (heq : equals ∉ a) (hx : x ∈ numberKeys sect)
      (hkey : trim a = ascii x.1) (hvalue : ¬ IsNumber x.2 (trim b)) :
      LineError sect number line (.fromCode .configInvalid x.1)

/-! ## Keys -/

/-- What `parse_u32` takes, and its error for anything else. -/
theorem parseU32_cases (value : Bytes) (field : String) :
    (IsNumber (0, 4294967295) value ∧
      parseU32 value field = .ok (digitsVal 10 (trim value)).toUInt32) ∨
    (¬ IsNumber (0, 4294967295) value ∧
      parseU32 value field = .error (.fromCode .configInvalid field)) := by
  unfold parseU32 fromCharsU32
  by_cases h : IsNumber (0, 4294967295) value
  · obtain ⟨hnum, -, hle⟩ := id h
    simp only at hle
    have hread : fromChars 10 (trim value) = some (digitsVal 10 (trim value), []) :=
      fromChars_eq_some_nil.mpr ⟨hnum, by unfold sizeMod; omega, rfl⟩
    have hfilter : (fromChars 10 (trim value)).filter (·.1 < 2 ^ 32) =
        some (digitsVal 10 (trim value), []) := by
      rw [hread]
      exact Option.filter_some_pos (by simpa using by omega)
    rw [hfilter]
    exact Or.inl ⟨h, rfl⟩
  · refine Or.inr ⟨h, ?_⟩
    split
    · rename_i out heq
      obtain ⟨hread, hlt⟩ := Option.filter_eq_some_iff.mp heq
      obtain ⟨hnum, -, rfl⟩ := fromChars_eq_some_nil.mp hread
      have hlt : digitsVal 10 (trim value) < 2 ^ 32 := by simpa using hlt
      exact absurd ⟨hnum, Nat.zero_le _, by simp only; omega⟩ h
    · rfl

theorem toUInt32_port {n : Nat} (h : n ≤ 4294967295) :
    (n.toUInt32 = 0 ∨ n.toUInt32 > 65535) ↔ ¬ (1 ≤ n ∧ n ≤ 65535) := by
  have hn : n.toUInt32.toNat = n := by
    simp only [UInt32.toNat_ofNat']
    omega
  rw [← UInt32.toNat_inj, gt_iff_lt, UInt32.lt_iff_toNat_lt, hn]
  show n = 0 ∨ 65535 < n ↔ _
  omega

/-- What `parse_port` takes, and its error for anything else. -/
theorem parsePort_error_iff {value : Bytes} {field : String} {e : Error} :
    parsePort value field = .error e ↔
      ¬ IsNumber (1, 65535) value ∧ e = .fromCode .configInvalid field := by
  unfold parsePort
  rcases parseU32_cases value field with ⟨hn, h⟩ | ⟨hn, h⟩ <;> rw [h]
  · obtain ⟨hnum, -, hle⟩ := hn
    simp only [toUInt32_port hle]
    by_cases hrange : 1 ≤ digitsVal 10 (trim value) ∧ digitsVal 10 (trim value) ≤ 65535
    · simp [IsNumber, hnum, hrange]
    · simp [IsNumber, hnum, hrange, eq_comm]
  · have hnot : ¬ IsNumber (1, 65535) value := fun hp =>
      hn ⟨hp.1, Nat.zero_le _, hp.2.2.trans (by decide)⟩
    simp [hnot, eq_comm]

/-- A key refuses exactly the values that are no number in its range, with its name. -/
def ConfigKey.Limits {σ : Type} (k : ConfigKey σ) (range : Option (Nat × Nat)) : Prop :=
  ∀ value s e, k.set value s = .error e ↔
    ∃ r, range = some r ∧ ¬ IsNumber r value ∧ e = .fromCode .configInvalid k.name

section Limits

variable {σ : Type}

theorem limits_of_ok {k : ConfigKey σ} (h : ∀ value s, ∃ s', k.set value s = .ok s') :
    k.Limits none := by
  intro value s e
  obtain ⟨s', hs⟩ := h value s
  simp [hs]

theorem except_map_error_iff {ε α β : Type} {f : α → β} {x : Except ε α} {e : ε} :
    x.map f = .error e ↔ x = .error e := by
  cases x <;> simp [Except.map]

theorem limits_portKey (name : String) (put : UInt16 → σ → σ) :
    (portKey name put).Limits (some (1, 65535)) := by
  intro value s e
  show (parsePort value name).map _ = _ ↔ _
  rw [except_map_error_iff, parsePort_error_iff]
  simp [portKey]

theorem limits_u32Key (name : String) (put : UInt32 → σ → σ) :
    (u32Key name put).Limits (some (0, 4294967295)) := by
  intro value s e
  show (parseU32 value name).map _ = _ ↔ _
  rw [except_map_error_iff]
  rcases parseU32_cases value name with ⟨hn, h⟩ | ⟨hn, h⟩ <;> rw [h] <;>
    simp [u32Key, hn, eq_comm]

/-- The keys of a section, with those of them that take a number. -/
structure KeysLimited (keys : List (ConfigKey σ)) (numbers : List (String × Nat × Nat)) :
    Prop where
  ok     : KeysOk keys
  limits : ∀ k ∈ keys, k.Limits (numbers.lookup k.name)
  number : ∀ x ∈ numbers, numbers.lookup x.1 = some x.2 ∧ x.1 ∈ keys.map ConfigKey.name

theorem KeysLimited.assign_error_iff {keys : List (ConfigKey σ)}
    {numbers : List (String × Nat × Nat)} (h : KeysLimited keys numbers) {key value : Bytes}
    {s : σ} {e : Error} :
    assign keys key value s = .error e ↔
      ∃ x ∈ numbers, key = ascii x.1 ∧ ¬ IsNumber x.2 value ∧
        e = .fromCode .configInvalid x.1 := by
  constructor
  · intro hs
    unfold assign at hs
    split at hs
    · cases hs
    · rename_i k hk
      have hmem := List.mem_of_find?_eq_some hk
      have hname : ascii k.name = key := by simpa using List.find?_some hk
      obtain ⟨r, hr, hvalue, he⟩ := (h.limits k hmem value s e).mp hs
      obtain ⟨l₁, l₂, hl, -⟩ := List.lookup_eq_some_iff.mp hr
      exact ⟨(k.name, r), hl ▸ by simp, hname.symm, hvalue, he⟩
  · rintro ⟨x, hx, rfl, hvalue, rfl⟩
    obtain ⟨hlookup, hname⟩ := h.number x hx
    obtain ⟨k, hk, hkx⟩ := List.mem_map.mp hname
    rw [← hkx, h.ok.assign hk]
    exact (h.limits k hk value s _).mpr ⟨x.2, hkx ▸ hlookup, hvalue, rfl⟩

end Limits

theorem limited_proxy : KeysLimited proxyKeys (numberKeys .proxy) where
  ok := keysOk_proxy
  limits := by
    simp only [proxyKeys, List.forall_mem_cons]
    exact ⟨limits_of_ok fun _ _ => ⟨_, rfl⟩, limits_portKey _ _, limits_portKey _ _,
      limits_u32Key _ _, List.forall_mem_nil _⟩
  number := by decide +kernel

theorem limited_pool : KeysLimited poolKeys (numberKeys .pool) where
  ok := keysOk_pool
  limits := by
    simp only [poolKeys, List.forall_mem_cons]
    exact ⟨limits_u32Key _ _, limits_u32Key _ _, limits_u32Key _ _, limits_u32Key _ _,
      List.forall_mem_nil _⟩
  number := by decide +kernel

theorem limited_upstream : KeysLimited upstreamKeys (numberKeys .upstream) where
  ok := keysOk_upstream
  limits := by
    simp only [upstreamKeys, List.forall_mem_cons]
    exact ⟨limits_of_ok fun _ _ => ⟨_, rfl⟩, limits_of_ok fun _ _ => ⟨_, rfl⟩, limits_portKey _ _,
      limits_u32Key _ _, limits_of_ok fun _ _ => ⟨_, rfl⟩, limits_of_ok fun _ _ => ⟨_, rfl⟩,
      List.forall_mem_nil _⟩
  number := by decide +kernel

theorem limited_tls : KeysLimited tlsKeys (numberKeys .tls) where
  ok := keysOk_tls
  limits := by
    simp only [tlsKeys, List.forall_mem_cons]
    exact ⟨limits_of_ok fun _ _ => ⟨_, rfl⟩, limits_of_ok fun _ _ => ⟨_, rfl⟩,
      limits_of_ok fun _ _ => ⟨_, rfl⟩, limits_of_ok fun _ _ => ⟨_, rfl⟩, List.forall_mem_nil _⟩
  number := by decide +kernel

theorem limited_log : KeysLimited logKeys (numberKeys .log) where
  ok := keysOk_log
  limits := by
    simp only [logKeys, List.forall_mem_cons]
    exact ⟨limits_of_ok fun _ _ => ⟨_, rfl⟩, limits_of_ok fun _ _ => ⟨_, rfl⟩,
      limits_of_ok fun _ _ => ⟨_, rfl⟩, List.forall_mem_nil _⟩
  number := by decide +kernel

/-! ## Lines -/

/-- In the section of an upstream there is one: `current_upstream` is not null. -/
def ConfigReader.HasUpstream (r : ConfigReader) : Prop :=
  r.sect = .upstream → r.cfg.upstreams ≠ []

/-- An assignment fails exactly on a number key. -/
theorem assignIn_error_iff {r : ConfigReader} (h : r.HasUpstream) {key value : Bytes} {e : Error} :
    assignIn r.sect r.cfg key value = .error e ↔
      ∃ x ∈ numberKeys r.sect, key = ascii x.1 ∧ ¬ IsNumber x.2 value ∧
        e = .fromCode .configInvalid x.1 := by
  unfold ConfigReader.HasUpstream at h
  cases hsect : r.sect with
  | root => simp [assignIn, numberKeys]
  | proxy => exact limited_proxy.assign_error_iff
  | tls => exact limited_tls.assign_error_iff
  | pool => exact limited_pool.assign_error_iff
  | log => exact limited_log.assign_error_iff
  | upstream =>
    obtain ⟨u, hu⟩ := List.getLast?_isSome.mpr (h hsect) |> Option.isSome_iff_exists.mp
    show assignUpstream r.cfg key value = _ ↔ _
    unfold assignUpstream
    rw [hu]
    exact except_map_error_iff.trans limited_upstream.assign_error_iff

/-- No assignment removes an upstream. -/
theorem assignIn_upstreams {sect : ConfigSection} {cfg cfg' : ProxyConfig} {key value : Bytes}
    (hne : cfg.upstreams ≠ []) (h : assignIn sect cfg key value = .ok cfg') :
    cfg'.upstreams ≠ [] := by
  rw [← List.length_pos_iff, (assignIn_frame h).1]
  exact List.length_pos_iff.mpr hne

/-- The three things a line can be for the reader: it opens a section, it says nothing, or it is
none of these and is taken for an assignment. -/
theorem readLine_eq (r : ConfigReader) (line : Bytes) :
    readLine r line =
      match sectionHeader (statement line) with
      | some sect => .ok { r with
          cfg.upstreams := if sect = .upstream then r.cfg.upstreams ++ [{}] else r.cfg.upstreams
          sect, line := r.line + 1 }
      | none =>
        if statement line = [] then .ok { r with line := r.line + 1 }
        else
          match find [equals] (statement line) with
          | none => .error (.fromCode .configSyntax
              ("syntax error on line " ++ toString (r.line + 1)))
          | some eq => (assignIn r.sect r.cfg (trim ((statement line).take eq))
              (trim ((statement line).drop (eq + 1)))).map fun cfg =>
                { r with cfg, line := r.line + 1 } := by
  unfold readLine sectionHeader statement
  by_cases h0 : trim (cutComment line) = []
  · have hne : ∀ s ∈ [ascii "[proxy]", ascii "[tls]", ascii "[pool]", ascii "[log]",
        ascii "[[upstream]]"], ([] : Bytes) ≠ s := by decide
    simp only [List.forall_mem_cons] at hne
    simp only [h0, hne.1, hne.2.1, hne.2.2.1, hne.2.2.2.1, hne.2.2.2.2.1, if_true, if_false]
  · simp only [h0, if_false]
    split_ifs <;> rfl

/-- **One line.** -/
theorem readLine_error_iff {r : ConfigReader} (h : r.HasUpstream) {line : Bytes} {e : Error} :
    readLine r line = .error e ↔ LineError r.sect (r.line + 1) line e := by
  rw [readLine_eq]
  constructor
  · intro he
    split at he
    · cases he
    · rename_i hheader
      split_ifs at he with hblank
      split at he
      · rename_i heq
        cases he
        exact .noStatement hblank hheader (find_singleton_none.mp heq)
      · rename_i n heq
        obtain ⟨a, b, hab, ha, rfl⟩ := find_singleton.mp heq
        obtain ⟨x, hx, hkey, hvalue, rfl⟩ :=
          (assignIn_error_iff h).mp (except_map_error_iff.mp he)
        rw [hab, List.take_left] at hkey
        rw [hab, drop_behind] at hvalue
        exact .noNumber hheader hab ha hx hkey hvalue
  · intro he
    cases he with
    | noStatement hne hheader heq =>
      rw [hheader]
      simp only [if_neg hne, find_singleton_none.mpr heq]
    | @noNumber a b x hheader hline heq hx hkey hvalue =>
      have hne : statement line ≠ [] := by
        rw [hline]
        simp
      rw [hheader]
      simp only [if_neg hne, find_singleton.mpr ⟨a, b, hline, heq, rfl⟩, except_map_error_iff]
      refine (assignIn_error_iff h).mpr ⟨x, hx, ?_, ?_, rfl⟩
      · rw [hline, List.take_left, hkey]
      · rwa [hline, drop_behind]

theorem readLine_ok {r r' : ConfigReader} (h : r.HasUpstream) {line : Bytes}
    (hr : readLine r line = .ok r') :
    r'.sect = (sectionHeader (statement line)).getD r.sect ∧ r'.line = r.line + 1 ∧
      r'.HasUpstream := by
  rw [readLine_eq] at hr
  split at hr
  · rename_i sect hheader
    cases hr
    refine ⟨by rw [hheader]; rfl, rfl, fun hs => ?_⟩
    have hs : sect = .upstream := hs
    simp [hs]
  · rename_i hheader
    rw [hheader]
    split_ifs at hr
    · cases hr
      exact ⟨rfl, rfl, h⟩
    · split at hr
      · cases hr
      · obtain ⟨cfg, hcfg, rfl⟩ := except_map_eq_ok hr
        exact ⟨rfl, rfl, fun hs => assignIn_upstreams (h hs) hcfg⟩

/-! ## Files -/

/-- No line has an error. -/
def NoLineError (ls : List Bytes) : Prop :=
  ∀ before line after, ls = before ++ line :: after →
    ∀ e, ¬ LineError (sectionAt before) (before.length + 1) line e

theorem sectionAt_concat (ls : List Bytes) (line : Bytes) :
    sectionAt (ls ++ [line]) = (sectionHeader (statement line)).getD (sectionAt ls) := by
  rw [sectionAt, List.foldl_append]
  rfl

/-- The reader behind lines without an error: it knows the section and counts the lines. -/
theorem readLines_ok {ls : List Bytes} {r : ConfigReader} (h : ls.foldlM readLine {} = .ok r) :
    r.sect = sectionAt ls ∧ r.line = ls.length ∧ r.HasUpstream := by
  induction ls using List.reverseRecOn generalizing r with
  | nil =>
    cases h
    exact ⟨rfl, rfl, nofun⟩
  | append_singleton ls line ih =>
    rw [List.foldlM_append] at h
    cases hls : ls.foldlM readLine {} with
    | error e =>
      rw [hls] at h
      cases h
    | ok r₀ =>
      obtain ⟨hsect, hline, hup⟩ := ih hls
      have hlast : readLine r₀ line = .ok r := by
        rw [hls] at h
        change [line].foldlM readLine r₀ = .ok r at h
        simpa using h
      obtain ⟨h1, h2, h3⟩ := readLine_ok hup hlast
      refine ⟨?_, ?_, h3⟩
      · rw [h1, sectionAt_concat, hsect]
      · rw [h2, hline, List.length_append, List.length_singleton]

/-- **Lines are read** exactly if none has an error. -/
theorem readLines_ok_iff {ls : List Bytes} :
    (∃ r, ls.foldlM readLine {} = .ok r) ↔ NoLineError ls := by
  constructor
  · rintro ⟨r, hr⟩ before line after rfl e he
    cases hbefore : before.foldlM readLine {} with
    | error e' =>
      rw [List.foldlM_append, hbefore] at hr
      cases hr
    | ok r₀ =>
      obtain ⟨hsect, hline, hup⟩ := readLines_ok hbefore
      rw [← hsect, ← hline, ← readLine_error_iff hup] at he
      have herr := Run.foldlM_error_iff.mpr ⟨before, line, after, r₀, rfl, hbefore, he⟩
      rw [hr] at herr
      cases herr
  · intro h
    cases hls : ls.foldlM readLine {} with
    | ok r => exact ⟨r, rfl⟩
    | error e =>
      obtain ⟨before, line, after, r₀, rfl, hbefore, he⟩ := Run.foldlM_error_iff.mp hls
      obtain ⟨hsect, hline, hup⟩ := readLines_ok hbefore
      rw [readLine_error_iff hup, hsect, hline] at he
      exact absurd he (h before line after rfl e)

/-- **The error of a configuration file** is that of its first line with one. -/
theorem config_error_iff {text : Bytes} {e : Error} :
    readConfig text = .error e ↔
      ∃ before line after, Lines.lines lf text = before ++ line :: after ∧ NoLineError before ∧
        LineError (sectionAt before) (before.length + 1) line e := by
  unfold readConfig
  rw [except_map_error_iff, Run.foldlM_error_iff]
  constructor
  · rintro ⟨before, line, after, r, hls, hbefore, he⟩
    obtain ⟨hsect, hline, hup⟩ := readLines_ok hbefore
    rw [readLine_error_iff hup, hsect, hline] at he
    exact ⟨before, line, after, hls, readLines_ok_iff.mp ⟨r, hbefore⟩, he⟩
  · rintro ⟨before, line, after, hls, hno, he⟩
    obtain ⟨r, hbefore⟩ := readLines_ok_iff.mpr hno
    obtain ⟨hsect, hline, hup⟩ := readLines_ok hbefore
    rw [← hsect, ← hline, ← readLine_error_iff hup] at he
    exact ⟨before, line, after, r, hls, hbefore, he⟩

/-- A missing `=` behind a comment and a key that is ignored. -/
example : readConfig (ascii "# a\nlisten_port = none\n[proxy]\nlisten_port 80\n") =
    .error (.fromCode .configSyntax "syntax error on line 4") := by
  decide +kernel

end Uproxy
