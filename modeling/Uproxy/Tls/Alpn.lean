import Uproxy.Config.Document

/-!
# Protocol selection (`alpn_select_cb`)

A client offers its protocols as a list of entries, each a byte with its length and its name. The
callback walks over the entries up to one that is cut off, and takes `h2` if it was among them, or
else `http/1.1`. `TLSContext::server` hands it no configuration.

`config_from_file` looks for the two names in the value of `alpn`, so the list it returns has them
in this order, whatever the order in the file (`readAlpn_order`).

* `offers_cons`, `alpnScan_spec`: the walk finds exactly the complete entries (`Offers`);
* `configFromFile_alpn`: the configured list is a sublist of the two protocols;
* **`alpn_selection`**: the choice is that of the configured list exactly if it is in the list at
  all, and that of the list in the file exactly if moreover `h2` stands first there when both are
  offered.
-/

namespace Uproxy

open Lib Lib.Search

/-! ## The callback -/

/-- The loop of `alpn_select_cb`: `has_h2` and `has_h1`. Every turn takes bytes off the input, whose
length bounds the turns. -/
def alpnScan : Nat → Bytes → Bool × Bool → Bool × Bool
  | fuel + 1, len :: rest, (hasH2, hasH1) =>
    if rest.length < len.toNat then (hasH2, hasH1)
    else
      let proto := rest.take len.toNat
      alpnScan fuel (rest.drop len.toNat)
        (hasH2 || proto == ascii "h2", hasH1 || proto == ascii "http/1.1")
  | _, _, found => found

/-- `alpn_select_cb`; `none` is `SSL_TLSEXT_ERR_NOACK`. -/
def alpnSelect (client : Bytes) : Option Bytes :=
  let (hasH2, hasH1) := alpnScan client.length client (false, false)
  if hasH2 then some (ascii "h2")
  else if hasH1 then some (ascii "http/1.1")
  else none

/-! ## Entries -/

/-- An entry of a protocol list. -/
def alpnEntry (p : Bytes) : Bytes := p.length.toUInt8 :: p

/-- The protocol is a complete entry of the client's list, behind complete entries. -/
def Offers (client p : Bytes) : Prop :=
  ∃ (es : List Bytes) (rest : Bytes), (∀ e ∈ es, e.length < 256) ∧ p.length < 256 ∧
    client = es.flatMap alpnEntry ++ (alpnEntry p ++ rest)

theorem not_offers_nil (p : Bytes) : ¬ Offers [] p := by
  rintro ⟨es, rest, -, -, h⟩
  have := congrArg List.length h
  simp [alpnEntry] at this

/-- The first entry, or one behind it. -/
theorem offers_cons (len : UInt8) (rest p : Bytes) : Offers (len :: rest) p ↔
    len.toNat ≤ rest.length ∧ (rest.take len.toNat = p ∨ Offers (rest.drop len.toNat) p) := by
  have hentry : ∀ {e r : Bytes}, e.length < 256 → len :: rest = alpnEntry e ++ r →
      len.toNat = e.length ∧ rest = e ++ r := by
    intro e r he h
    rw [alpnEntry, List.cons_append] at h
    obtain ⟨rfl, rfl⟩ := List.cons.inj h
    exact ⟨Nat.mod_eq_of_lt he, rfl⟩
  constructor
  · rintro ⟨_ | ⟨e, es⟩, r, hes, hp, h⟩
    · obtain ⟨hlen, rfl⟩ := hentry hp h
      rw [hlen, List.take_left, List.length_append]
      exact ⟨Nat.le_add_right _ _, Or.inl rfl⟩
    · obtain ⟨he, hes⟩ := List.forall_mem_cons.mp hes
      rw [List.flatMap_cons, List.append_assoc] at h
      obtain ⟨hlen, rfl⟩ := hentry he h
      rw [hlen, List.drop_left, List.length_append]
      exact ⟨Nat.le_add_right _ _, Or.inr ⟨es, r, hes, hp, rfl⟩⟩
  · rintro ⟨hle, h⟩
    have hlen : (rest.take len.toNat).length = len.toNat := by
      rw [List.length_take, Nat.min_eq_left hle]
    have hlt : (rest.take len.toNat).length < 256 := by
      rw [hlen]
      exact len.toNat_lt
    have hsplit : len :: rest = alpnEntry (rest.take len.toNat) ++ rest.drop len.toNat := by
      rw [alpnEntry, List.cons_append, hlen, List.take_append_drop]
      simp
    rcases h with rfl | ⟨es, r, hes, hp, h⟩
    · exact ⟨[], _, List.forall_mem_nil _, hlt, hsplit⟩
    · refine ⟨rest.take len.toNat :: es, r, List.forall_mem_cons.mpr ⟨hlt, hes⟩, hp, ?_⟩
      rw [hsplit, h, List.flatMap_cons, List.append_assoc]

/-- **The walk finds the complete entries.** -/
theorem alpnScan_spec : ∀ {fuel : Nat} {client : Bytes} (found : Bool × Bool),
    client.length ≤ fuel →
      ((alpnScan fuel client found).1 = true ↔ found.1 = true ∨ Offers client (ascii "h2")) ∧
        ((alpnScan fuel client found).2 = true ↔
          found.2 = true ∨ Offers client (ascii "http/1.1"))
  | fuel, [], found, _ => by
    have hscan : alpnScan fuel [] found = found := by cases fuel <;> rfl
    rw [hscan]
    simp only [not_offers_nil, or_false, and_self]
  | fuel + 1, len :: rest, (hasH2, hasH1), h => by
    rw [alpnScan]
    simp only [offers_cons]
    split_ifs with hcut
    · simp only [Nat.not_le.mpr hcut, false_and, or_false, and_self]
    · have hfuel : (rest.drop len.toNat).length ≤ fuel := by
        rw [List.length_drop]
        rw [List.length_cons] at h
        omega
      obtain ⟨h2, h1⟩ := alpnScan_spec (hasH2 || rest.take len.toNat == ascii "h2",
        hasH1 || rest.take len.toNat == ascii "http/1.1") hfuel
      rw [h2, h1]
      simp only [Bool.or_eq_true, beq_iff_eq, Nat.le_of_not_lt hcut, true_and, or_assoc, and_self]

/-- `h2` is taken if it is offered. -/
theorem alpnSelect_of_h2 {client : Bytes} (h : Offers client (ascii "h2")) :
    alpnSelect client = some (ascii "h2") := by
  obtain ⟨h2, -⟩ := alpnScan_spec (false, false) (Nat.le_refl client.length)
  unfold alpnSelect
  exact if_pos (h2.mpr (Or.inr h))

/-- Otherwise `http/1.1` is, and otherwise none. -/
theorem alpnSelect_of_not_h2 {client : Bytes} (h : ¬ Offers client (ascii "h2")) :
    (Offers client (ascii "http/1.1") → alpnSelect client = some (ascii "http/1.1")) ∧
      (¬ Offers client (ascii "http/1.1") → alpnSelect client = none) := by
  obtain ⟨h2, h1⟩ := alpnScan_spec (false, false) (Nat.le_refl client.length)
  have hno : ¬ (alpnScan client.length client (false, false)).1 = true := by
    rw [h2]
    simp [h]
  unfold alpnSelect
  simp only [if_neg hno]
  exact ⟨fun ho => if_pos (h1.mpr (Or.inr ho)), fun ho => if_neg fun hs => by
    rcases h1.mp hs with hf | hs
    · cases hf
    · exact ho hs⟩

/-! ## The configured list -/

/-- The first protocol of a list that the client offers, if there is one. -/
def FirstOffered (client : Bytes) (l : List Bytes) : Option Bytes → Prop
  | none => ∀ p ∈ l, ¬ Offers client p
  | some p => ∃ pre post, l = pre ++ p :: post ∧ Offers client p ∧ ∀ q ∈ pre, ¬ Offers client q

/-- A protocol is the first one of a list with no other, if it is in the list at all. -/
theorem firstOffered_of_mem {client p : Bytes} {l : List Bytes} (hp : Offers client p)
    (hl : ∀ q ∈ l, q = p ∨ ¬ Offers client q) : FirstOffered client l (some p) ↔ p ∈ l := by
  constructor
  · rintro ⟨pre, post, rfl, -⟩
    exact List.mem_append_right _ List.mem_cons_self
  · intro hmem
    obtain ⟨pre, post, rfl, hpre⟩ := List.eq_append_cons_of_mem hmem
    refine ⟨pre, post, rfl, hp, fun q hq => ?_⟩
    rcases hl q (List.mem_append_left _ hq) with rfl | hno
    · exact absurd hq hpre
    · exact hno

/-- A protocol is the first one of a list that is offered as a whole, if the list starts with it. -/
theorem firstOffered_of_all {client p : Bytes} {l : List Bytes} (hp : Offers client p)
    (hl : ∀ q ∈ l, Offers client q) : FirstOffered client l (some p) ↔ l.head? = some p := by
  constructor
  · rintro ⟨_ | ⟨q, pre⟩, post, rfl, -, hpre⟩
    · rfl
    · exact absurd (hl q List.mem_cons_self) (hpre q List.mem_cons_self)
  · intro hhead
    obtain ⟨post, rfl⟩ := List.head?_eq_some_iff.mp hhead
    exact ⟨[], post, rfl, hp, List.forall_mem_nil _⟩

theorem mem_alpnOrder {p : Bytes} : p ∈ alpnOrder ↔ p = ascii "h2" ∨ p = ascii "http/1.1" := by
  simp only [alpnOrder, List.mem_cons, List.not_mem_nil, or_false]

/-- The list has `h2` if the client offers it, and `http/1.1` if the client offers it without
`h2`. -/
def ChoiceIn (client : Bytes) (l : List Bytes) : Prop :=
  (Offers client (ascii "h2") → ascii "h2" ∈ l) ∧
    (Offers client (ascii "http/1.1") → ¬ Offers client (ascii "h2") → ascii "http/1.1" ∈ l)

/-- **When the callback follows a list of the two protocols**: what it chooses is in the list, and
stands first there if both are offered. -/
theorem firstOffered_alpnSelect {client : Bytes} {l : List Bytes} (hl : ∀ p ∈ l, p ∈ alpnOrder) :
    FirstOffered client l (alpnSelect client) ↔
      ChoiceIn client l ∧ (Offers client (ascii "h2") → Offers client (ascii "http/1.1") →
        l.head? = some (ascii "h2")) := by
  unfold ChoiceIn
  by_cases h2 : Offers client (ascii "h2") <;> by_cases h1 : Offers client (ascii "http/1.1")
  · -- both are offered, so the list is offered as a whole
    have hall : ∀ q ∈ l, Offers client q := by
      intro q hq
      rcases mem_alpnOrder.mp (hl q hq) with rfl | rfl
      · exact h2
      · exact h1
    rw [alpnSelect_of_h2 h2, firstOffered_of_all h2 hall]
    simp only [h2, h1, true_imp_iff, not_true, false_imp_iff, and_true]
    exact ⟨fun h => ⟨List.mem_of_head? h, h⟩, And.right⟩
  · have hother : ∀ q ∈ l, q = ascii "h2" ∨ ¬ Offers client q := by
      intro q hq
      rcases mem_alpnOrder.mp (hl q hq) with rfl | rfl
      · exact Or.inl rfl
      · exact Or.inr h1
    rw [alpnSelect_of_h2 h2, firstOffered_of_mem h2 hother]
    simp only [h2, h1, true_imp_iff, false_imp_iff, implies_true, and_true]
  · have hother : ∀ q ∈ l, q = ascii "http/1.1" ∨ ¬ Offers client q := by
      intro q hq
      rcases mem_alpnOrder.mp (hl q hq) with rfl | rfl
      · exact Or.inr h2
      · exact Or.inl rfl
    rw [(alpnSelect_of_not_h2 h2).1 h1, firstOffered_of_mem h1 hother]
    simp only [h2, h1, true_imp_iff, false_imp_iff, not_false_iff, true_and, and_true]
  · have hnone : ∀ q ∈ l, ¬ Offers client q := by
      intro q hq
      rcases mem_alpnOrder.mp (hl q hq) with rfl | rfl
      · exact h2
      · exact h1
    rw [(alpnSelect_of_not_h2 h2).2 h1]
    simp only [h2, h1, false_imp_iff, and_self, iff_true]
    exact hnone

/-! ## What `config_from_file` makes of the list -/

theorem readAlpn_sublist (value : Bytes) : (readAlpn value).Sublist alpnOrder := by
  have hif : ∀ (c : Bool) (p : Bytes), (if c then [p] else []).Sublist [p] := by
    intro c p
    cases c
    · exact List.nil_sublist _
    · exact List.Sublist.refl _
  exact (hif _ _).append (hif _ _)

/-- **The list that is read** is a sublist of the two protocols. -/
theorem configFromFile_alpn {files : Bytes → Option Bytes} {path : Bytes} {cfg : ProxyConfig}
    (h : configFromFile files path = .ok cfg) : cfg.tls.alpn.Sublist alpnOrder := by
  refine configFromFile_kept (P := fun cfg => cfg.tls.alpn.Sublist alpnOrder) ?_ (fun _ _ h => h)
    (List.Sublist.refl _) h
  rintro cfg cfg' ⟨-, heq | ⟨value, heq⟩⟩ hsub <;> rw [heq]
  · exact hsub
  · exact readAlpn_sublist value

/-- In a sublist of the two protocols `h2` stands first. -/
theorem head_of_sublist_alpnOrder {l : List Bytes} (hl : l.Sublist alpnOrder)
    (h : ascii "h2" ∈ l) : l.head? = some (ascii "h2") := by
  have hall : ∀ l ∈ alpnOrder.sublists, ascii "h2" ∈ l → l.head? = some (ascii "h2") := by
    decide +kernel
  exact hall l (List.mem_sublists.mpr hl) h

/-- What holds of the bytes of the names and of the brackets and commas holds of the whole value. -/
theorem forall_mem_alpnText {P : UInt8 → Prop} {l : List Bytes} (hsep : ∀ c ∈ ascii "[, ]", P c)
    (hl : ∀ p ∈ l, ∀ c ∈ quoted p, P c) : ∀ c ∈ alpnText l, P c := by
  intro c hc
  rcases List.mem_append.mp hc with hc | hc
  · exact hsep c (List.mem_append_left (ascii ", ]") hc)
  rcases List.mem_append.mp hc with hc | hc
  · rcases Lines.mem_intercalate hc with hc | ⟨x, hx, hc⟩
    · exact hsep c (List.mem_cons_of_mem _ (List.mem_append_left (ascii "]") hc))
    · obtain ⟨p, hp, rfl⟩ := List.mem_map.mp hx
      exact hl p hp c hc
  · exact hsep c (List.mem_append_right (ascii "[, ") hc)

/-- A name is found in the value exactly if it is in the list, when it has a byte that no other name
has. -/
theorem contains_alpnText {p q : Bytes} {c : UInt8} (hc : c ∈ p) (hsep : c ∉ ascii "[, ]")
    (hq : c ∉ quoted q) {l : List Bytes} (hl : ∀ x ∈ l, x = p ∨ x = q) :
    contains p (alpnText l) = true ↔ p ∈ l := by
  rw [contains, find_isSome_iff]
  constructor
  · intro hin
    by_contra hp
    have hno : ∀ b ∈ alpnText l, b ≠ c := by
      refine forall_mem_alpnText (fun b hb he => hsep (he ▸ hb)) fun x hx b hb he => ?_
      rcases hl x hx with rfl | rfl
      · exact hp hx
      · exact hq (he ▸ hb)
    exact hno c (hin.subset hc) rfl
  · intro hp
    have hquoted : p <:+: quoted p := ⟨[quote], [quote], rfl⟩
    have hlist := Lines.infix_intercalate (ascii ", ") (List.mem_map_of_mem (f := quoted) hp)
    exact hquoted.trans (hlist.trans ⟨ascii "[", ascii "]", by simp [alpnText]⟩)

/-- **The order of the file is lost**: whatever it is, `h2` comes first. -/
theorem readAlpn_order {l : List Bytes} (hl : ∀ p ∈ l, p ∈ alpnOrder) :
    readAlpn (trim (cutComment (alpnText l))) = alpnOrder.filter (l.contains ·) := by
  have hl' : ∀ p ∈ l, p = ascii "h2" ∨ p = ascii "http/1.1" :=
    fun p hp => mem_alpnOrder.mp (hl p hp)
  have hcut : cutComment (alpnText l) = alpnText l := by
    have hno : ∀ c ∈ alpnText l, c ≠ hash := by
      refine forall_mem_alpnText (by decide +kernel) fun p hp => ?_
      rcases hl' p hp with rfl | rfl <;> decide +kernel
    exact takeWhile_ne_eq_self fun hc => hno hash hc rfl
  have htrim : trim (alpnText l) = alpnText l :=
    Lines.trim_cons_concat (x := 91) (y := 93) (by decide) (by decide) _
  have h2 : contains (ascii "h2") (alpnText l) = l.contains (ascii "h2") := by
    rw [Bool.eq_iff_iff, List.contains_iff_mem]
    exact contains_alpnText (c := 50) (by decide) (by decide) (by decide) hl'
  have h1 : contains (ascii "http/1.1") (alpnText l) = l.contains (ascii "http/1.1") := by
    rw [Bool.eq_iff_iff, List.contains_iff_mem]
    exact contains_alpnText (c := 47) (by decide) (by decide) (by decide)
      fun p hp => (hl' p hp).symm
  rw [hcut, htrim, readAlpn, h2, h1, alpnOrder, List.filter_cons, List.filter_cons, List.filter_nil]
  cases l.contains (ascii "h2") <;> cases l.contains (ascii "http/1.1") <;> rfl

/-- **Protocol selection.** The callback chooses the first protocol of the configured list that the
client offers, or none, exactly if what it chooses is in that list. It follows the list as it stands
in the file exactly if moreover `h2` comes first there when both protocols are offered. -/
theorem alpn_selection (client : Bytes) :
    (∀ {files : Bytes → Option Bytes} {path : Bytes} {cfg : ProxyConfig},
      configFromFile files path = .ok cfg →
        (FirstOffered client cfg.tls.alpn (alpnSelect client) ↔ ChoiceIn client cfg.tls.alpn)) ∧
    ∀ {l : List Bytes}, (∀ p ∈ l, p ∈ alpnOrder) →
      readAlpn (trim (cutComment (alpnText l))) = alpnOrder.filter (l.contains ·) ∧
        (FirstOffered client l (alpnSelect client) ↔
          ChoiceIn client l ∧ (Offers client (ascii "h2") → Offers client (ascii "http/1.1") →
            l.head? = some (ascii "h2"))) := by
  refine ⟨fun h => ?_, fun hl => ⟨readAlpn_order hl, firstOffered_alpnSelect hl⟩⟩
  have hsub := configFromFile_alpn h
  rw [firstOffered_alpnSelect fun p hp => hsub.subset hp]
  exact ⟨And.left, fun hc => ⟨hc, fun h2 _ => head_of_sublist_alpnOrder hsub (hc.1 h2)⟩⟩

/-- A configuration file with a list of protocols. -/
def alpnFile (l : List Bytes) : Bytes :=
  [ascii "[tls]", assignment (ascii "alpn") (alpnText l)].flatMap (· ++ [lf])

/-- A client that offers both protocols. -/
def bothOffered : Bytes := alpnEntry (ascii "h2") ++ alpnEntry (ascii "http/1.1")

theorem offers_h2_bothOffered : Offers bothOffered (ascii "h2") :=
  ⟨[], _, List.forall_mem_nil _, by decide, rfl⟩

theorem offers_h1_bothOffered : Offers bothOffered (ascii "http/1.1") :=
  ⟨[ascii "h2"], [], by decide, by decide, by decide⟩

/-- With only `h2` in the file, `h2` is chosen. -/
theorem alpn_selection_h2 :
    FirstOffered bothOffered [ascii "h2"] (alpnSelect bothOffered) ∧
      alpnSelect bothOffered = some (ascii "h2") := by
  have hread : configFromFile (fun _ => some (alpnFile [ascii "h2"])) (ascii "c") =
      .ok { tls := { alpn := [ascii "h2"] } } := by decide +kernel
  exact ⟨((alpn_selection bothOffered).1 hread).mpr
    ⟨fun _ => by decide, fun _ hno => absurd offers_h2_bothOffered hno⟩, by decide⟩

/-- **The list is not looked at**: with only `http/1.1` in the file, and with `http/1.1` in front of
`h2`, `h2` is chosen all the same. -/
theorem alpn_selection_ignored :
    configFromFile (fun _ => some (alpnFile [ascii "http/1.1"])) (ascii "c") =
        .ok { tls := { alpn := [ascii "http/1.1"] } } ∧
      alpnSelect bothOffered = some (ascii "h2") ∧
      FirstOffered bothOffered [ascii "http/1.1"] (some (ascii "http/1.1")) ∧
      ¬ FirstOffered bothOffered [ascii "http/1.1"] (alpnSelect bothOffered) ∧
      configFromFile (fun _ => some (alpnFile [ascii "http/1.1", ascii "h2"])) (ascii "c") =
        .ok { tls := { alpn := [ascii "h2", ascii "http/1.1"] } } ∧
      ¬ FirstOffered bothOffered [ascii "http/1.1", ascii "h2"] (alpnSelect bothOffered) := by
  have hselect : alpnSelect bothOffered = some (ascii "h2") := by decide
  refine ⟨by decide +kernel, hselect, ⟨[], [], rfl, offers_h1_bothOffered, List.forall_mem_nil _⟩,
    fun h => ?_, by decide +kernel, fun h => ?_⟩
  · have hin := ((firstOffered_alpnSelect (by decide)).mp h).1.1 offers_h2_bothOffered
    exact absurd hin (by decide)
  · have hhead := ((firstOffered_alpnSelect (by decide)).mp h).2 offers_h2_bothOffered
      offers_h1_bothOffered
    exact absurd hhead (by decide)

end Uproxy
