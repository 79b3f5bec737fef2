import Uproxy.Http1.Forward
import Uproxy.Http1.Relay
import Uproxy.Proxy.Exchange

/-!
# Chains of proxies

The upstream of a proxy may be a proxy itself, and by mistake it may be the same one. `hop` is what
a proxy sends on for the request at the front of the bytes it receives; here the bytes pass through
a chain of them.

The head that is written for the upstream is again one of the grammar (`Head.behind`): it has the
`Host` of the upstream, the fields that are kept, and a `Via` for every proxy passed.

* `Head.behind_behind`: one more proxy adds one more `Via`;
* **`hop_accepted_iff`**: when the next proxy accepts what is sent to it, and what it reads then;
* **`proxy_chain`**: what the last upstream of a chain receives. Every proxy adds a field and none
  accepts more than a hundred, so a request that runs in a loop of proxies is refused in the end.
-/

namespace Uproxy

open Lib.Search

/-- What a proxy sends to `host` for the request at the front of `bytes`, if it forwards one. -/
def hop (bytes host : Bytes) : Option Bytes :=
  match parseInput bytes with
  | (.complete, req) =>
    if req.chunked ∨ req.contentLength > bytes.length - req.headerBytes then none
    else
      (upstreamRequest req ((bytes.drop req.headerBytes).take req.contentLength) host).toOption
  | _ => none

namespace Head

/-- The head behind `n` proxies, the last of which sends it to `host`. -/
def behind (h : Head) (n : Nat) (host : Bytes) : Head :=
  { h with
    fields := HttpHeader.field ⟨ascii "Host", host⟩ ::
      ((keptFields requestSkips h.headers).map HttpHeader.field ++ List.replicate n viaField) }

theorem headers_behind (h : Head) (n : Nat) (host : Bytes) :
    (h.behind n host).headers = ⟨ascii "Host", trimOws host⟩ ::
      (keptFields requestSkips h.headers ++ List.replicate n viaField.header) := by
  show Field.header _ :: List.map Field.header (_ ++ _) = _
  rw [List.map_append, headers, map_header_kept, List.map_replicate]
  rfl

theorem kept_behind (h : Head) (n : Nat) (host : Bytes) :
    keptFields requestSkips (h.behind n host).headers =
      keptFields requestSkips h.headers ++ List.replicate n viaField.header := by
  have hhost : lower (ascii "Host") ∈ requestSkips := by decide +kernel
  have hvia : lower viaField.header.name ∉ requestSkips := by decide +kernel
  rw [headers_behind]
  unfold keptFields
  rw [List.filter_cons_of_neg (by simpa using hhost), List.filter_append, List.filter_filter]
  simp [hvia]

/-- One more proxy adds one more field. -/
theorem behind_behind (h : Head) (n : Nat) (host host' : Bytes) :
    (h.behind n host).behind 1 host' = h.behind (n + 1) host' := by
  have hvia : viaField.header.field = viaField := by decide +kernel
  have hfields : (keptFields requestSkips (h.behind n host).headers).map HttpHeader.field ++
      List.replicate 1 viaField =
      (keptFields requestSkips h.headers).map HttpHeader.field ++
        List.replicate (n + 1) viaField := by
    rw [kept_behind, List.map_append, List.map_replicate, hvia, List.append_assoc,
      List.replicate_append_replicate]
  show Head.mk _ _ _ (_ :: (_ ++ _)) = Head.mk _ _ _ (_ :: (_ ++ _))
  rw [hfields]
  rfl

/-- The head behind some proxies, line by line. -/
theorem render_behind_lines (h : Head) (n : Nat) (host : Bytes) :
    (h.behind n host).render = joinLines cr lf
      ([h.startLine, ascii "Host: " ++ host] ++
        (keptFields requestSkips h.headers).map fieldText ++
        List.replicate n (ascii "Via: 1.1 uproxy")) ++ crlf := by
  have hline : Field.line ∘ HttpHeader.field = fieldText := rfl
  have hvia : viaField.line = ascii "Via: 1.1 uproxy" := by decide +kernel
  have hlines : (h.behind n host).fields.map Field.line =
      (ascii "Host: " ++ host) :: ((keptFields requestSkips h.headers).map fieldText ++
        List.replicate n (ascii "Via: 1.1 uproxy")) := by
    show List.map Field.line (_ :: (_ ++ _)) = _
    rw [List.map_cons, List.map_append, List.map_map, List.map_replicate, hvia, hline]
    rfl
  unfold render
  rw [hlines]
  rfl

/-- **What `write_request` writes** for an accepted request is the head behind one proxy. -/
theorem render_behind (h : Head) (host : Bytes) :
    (h.behind 1 host).render = joinLines cr lf (requestLines h.request host) ++ crlf := by
  rw [render_behind_lines, requestLines, h.addedLength_eq, List.append_nil]
  rfl

theorem startWF_behind {h : Head} (hwf : h.WF) (n : Nat) (host : Bytes) :
    (h.behind n host).StartWF := { hwf.toStartWF with }

/-- The names of the fields, and their lines, if the host is on one line. -/
theorem fields_behind {h : Head} (hwf : h.WF) (n : Nat) {host : Bytes} (hh : lf ∉ host) :
    ∀ f ∈ (h.behind n host).fields, f.Delimited := by
  intro f hf
  rcases List.mem_cons.mp hf with rfl | hf
  · refine ⟨show colon ∉ ascii "Host" by decide, fun hm => ?_⟩
    rcases List.mem_append.mp hm with hm | hm
    · exact absurd (show lf ∈ ascii "Host" from hm) (by decide)
    rcases List.mem_cons.mp hm with hm | hm
    · exact absurd hm (by decide)
    rcases List.mem_cons.mp hm with hm | hm
    · exact absurd hm (by decide)
    · exact hh hm
  rcases List.mem_append.mp hf with hf | hf
  · obtain ⟨x, hx, rfl⟩ := List.mem_map.mp hf
    obtain ⟨g, hg, rfl⟩ := mem_kept hx
    exact (hwf.fields_wf g hg).relayed.delimited
  · rw [List.eq_of_mem_replicate hf]
    exact viaField_wf.delimited

/-- The lengths a head announces are not touched. -/
theorem values_behind (h : Head) (n : Nat) (host : Bytes) :
    values "content-length" (h.behind n host).headers = values "content-length" h.headers ∧
      values "transfer-encoding" (h.behind n host).headers = [] := by
  have hvia : ∀ name ∈ ["content-length", "transfer-encoding"],
      lower viaField.header.name ≠ ascii name ∧ lower (ascii "Host") ≠ ascii name := by
    decide +kernel
  have hdrop : ∀ name ∈ ["content-length", "transfer-encoding"],
      values name (h.behind n host).headers =
        values name (keptFields requestSkips h.headers) := by
    intro name hname
    obtain ⟨h1, h2⟩ := hvia name hname
    rw [headers_behind, values_cons, if_neg h2, values_append]
    have : values name (List.replicate n viaField.header) = [] := by
      unfold values
      rw [List.filter_replicate, if_neg (by simpa using h1)]
      rfl
    rw [this, List.append_nil]
  refine ⟨?_, ?_⟩
  · rw [hdrop _ (by simp), values_keptFields (by decide +kernel)]
  · rw [hdrop _ (by simp), values_keptFields_skipped (by decide +kernel)]

theorem contentLength_behind (h : Head) (n : Nat) (host : Bytes) :
    (h.behind n host).contentLength = h.contentLength := by
  unfold contentLength commonLength
  rw [(h.values_behind n host).1]

theorem chunked_behind (h : Head) (n : Nat) (host : Bytes) :
    (h.behind n host).request.chunked = false := by
  show saysWord "transfer-encoding" "chunked" _ = false
  unfold saysWord
  rw [(h.values_behind n host).2]
  rfl

theorem length_behind (h : Head) (n : Nat) (host : Bytes) :
    (h.behind n host).fields.length = (keptFields requestSkips h.headers).length + n + 1 := by
  show (_ :: (_ ++ _) : List Field).length = _
  rw [List.length_cons, List.length_append, List.length_map, List.length_replicate]

/-- The fields that are kept, and those that are added, fit as those of the client did. -/
theorem field_wf_behind {h : Head} (hwf : h.WF) (n : Nat) {host : Bytes}
    (hvalid : validHeaderValue host = true) (hlen : (trimOws host).length ≤ maxHeaderValue) :
    ∀ f ∈ (h.behind n host).fields, f.WF := by
  have hvalue : ∀ {v : Bytes}, (∀ c ∈ v, 0x20 ≤ c ∨ c = htab) →
      ∀ c ∈ sp :: v, 0x20 ≤ c ∨ c = htab := fun hv =>
    List.forall_mem_cons.mpr ⟨Or.inl (by decide), hv⟩
  intro f hf
  rcases List.mem_cons.mp hf with rfl | hf
  · exact ⟨show ascii "Host" ≠ [] by decide, show (ascii "Host").length ≤ _ by decide,
      show (ascii "Host").all isTokenChar = true by decide,
      hvalue (validHeaderValue_iff.mp hvalid), hlen⟩
  rcases List.mem_append.mp hf with hf | hf
  · obtain ⟨x, hx, rfl⟩ := List.mem_map.mp hf
    obtain ⟨g, hg, rfl⟩ := mem_kept hx
    exact (hwf.fields_wf g hg).relayed
  · rw [List.eq_of_mem_replicate hf]
    exact viaField_wf

/-- **The head behind some proxies is one of the grammar** exactly if its fields are not too many,
and the host is a value that fits. -/
theorem wf_behind_iff {h : Head} (hwf : h.WF) (n : Nat) (host : Bytes) :
    (h.behind n host).WF ↔
      (keptFields requestSkips h.headers).length + n + 1 ≤ maxHeaderCount ∧
        validHeaderValue host = true ∧ (trimOws host).length ≤ maxHeaderValue := by
  obtain ⟨hlengths, hencodings⟩ := h.values_behind n host
  constructor
  · intro hb
    have hfield := hb.fields_wf _ (List.mem_cons_self (a := HttpHeader.field ⟨ascii "Host", host⟩))
    refine ⟨h.length_behind n host ▸ hb.count_le, ?_, hfield.value_len⟩
    exact validHeaderValue_iff.mpr fun c hc => hfield.raw_valid c (List.mem_cons_of_mem sp hc)
  · rintro ⟨hcount, hvalid, hlen⟩
    change values "content-length" ((h.behind n host).fields.map Field.header) = _ at hlengths
    refine { startWF_behind hwf n host with
      count_le := h.length_behind n host ▸ hcount
      fields_wf := field_wf_behind hwf n hvalid hlen
      lengths := ?_
      lengths_same := ?_
      one_framing := fun _ => chunked_behind h n host }
    · rw [hlengths]
      exact hwf.lengths
    · rw [hlengths]
      exact hwf.lengths_same

end Head

/-! ## One hop -/

/-- The request a proxy forwards, and what it sends. -/
theorem hop_eq_some_iff {bytes host out : Bytes} :
    hop bytes host = some out ↔
      ∃ (h : Head) (body rest : Bytes), h.WF ∧ h.render.length ≤ maxHeaderBytes ∧
        h.request.chunked = false ∧ body.length = h.contentLength ∧
        bytes = h.render ++ body ++ rest ∧ out = (h.behind 1 host).render ++ body := by
  have hsend : ∀ (h : Head) (body : Bytes), h.WF →
      (upstreamRequest h.request body host).toOption = some ((h.behind 1 host).render ++ body) := by
    intro h body hwf
    rw [h.render_behind, upstreamRequest_of_head (requestHead_eq_ok_iff.mpr
      ⟨hwf.clean.value, rfl⟩)]
    rfl
  unfold hop
  constructor
  · intro hs
    rcases hp : parseInput bytes with ⟨_ | _ | _, req⟩ <;> rw [hp] at hs
    · obtain ⟨h, ⟨tail, rfl⟩, hlen, hwf, rfl⟩ := parseInput_complete_iff.mp hp
      have hdrop : (h.render ++ tail).drop h.request.headerBytes = tail := List.drop_left
      simp only [hdrop] at hs
      split_ifs at hs with hbad
      obtain ⟨hchunked, hshort⟩ := not_or.mp hbad
      rw [hsend h _ hwf] at hs
      cases hs
      refine ⟨h, tail.take h.contentLength, tail.drop h.contentLength, hwf, hlen,
        by simpa using hchunked, ?_, ?_, rfl⟩
      · rw [List.length_append, show h.request.headerBytes = h.render.length from rfl] at hshort
        rw [List.length_take]
        exact Nat.min_eq_left (by show h.request.contentLength ≤ _; omega)
      · rw [List.append_assoc, List.take_append_drop]
    · cases hs
    · cases hs
  · rintro ⟨h, body, rest, hwf, hlen, hchunked, hbody, rfl, rfl⟩
    have hp : parseInput (h.render ++ body ++ rest) = (.complete, h.request) :=
      parseInput_complete_iff.mpr
        ⟨h, ⟨body ++ rest, (List.append_assoc _ _ _).symm⟩, hlen, hwf, rfl⟩
    have hdrop : (h.render ++ body ++ rest).drop h.request.headerBytes = body ++ rest := by
      rw [List.append_assoc]
      exact List.drop_left
    have htake : (body ++ rest).take h.request.contentLength = body := by
      rw [show h.request.contentLength = body.length from hbody.symm]
      exact List.take_left
    rw [hp]
    simp only [hdrop, htake]
    rw [if_neg, hsend h body hwf]
    rintro (hc | hs)
    · rw [hchunked] at hc
      cases hc
    · rw [List.append_assoc, List.length_append, List.length_append,
        show h.request.headerBytes = h.render.length from rfl,
        show h.request.contentLength = body.length from hbody.symm] at hs
      omega

/-- What a proxy sends on, in terms of the request it has read. -/
theorem hop_request {bytes host out : Bytes} {req : HttpRequest}
    (hc : parseInput bytes = (.complete, req)) (hs : hop bytes host = some out) :
    let body := (bytes.drop req.headerBytes).take req.contentLength
    ∃ h : Head, h.WF ∧ req = h.request ∧ body.length = h.contentLength ∧
      out = (h.behind 1 host).render ++ body := by
  obtain ⟨h, body, rest, hwf, hlen, -, hbody, rfl, rfl⟩ := hop_eq_some_iff.mp hs
  have hp : parseInput (h.render ++ body ++ rest) = (.complete, h.request) :=
    parseInput_complete_iff.mpr ⟨h, ⟨body ++ rest, (List.append_assoc _ _ _).symm⟩, hlen, hwf, rfl⟩
  obtain rfl : h.request = req := congrArg Prod.snd (hp.symm.trans hc)
  have hcut : ((h.render ++ body ++ rest).drop h.request.headerBytes).take
      h.request.contentLength = body := by
    rw [List.append_assoc, show h.request.headerBytes = h.render.length from rfl, List.drop_left,
      show h.request.contentLength = body.length from hbody.symm, List.take_left]
  simp only [hcut]
  exact ⟨h, hwf, rfl, hbody, rfl⟩

/-- What a proxy reads in what another one has sent to it. -/
theorem parseInput_behind_iff {h : Head} (hwf : h.WF) (n : Nat) {host : Bytes} (hh : lf ∉ host)
    (body : Bytes) {req : HttpRequest} :
    parseInput ((h.behind n host).render ++ body) = (.complete, req) ↔
      ((h.behind n host).WF ∧ (h.behind n host).render.length ≤ maxHeaderBytes) ∧
        req = (h.behind n host).request := by
  rw [parseInput_complete_iff]
  constructor
  · rintro ⟨g, ⟨r, hr⟩, hlen, hgwf, rfl⟩
    obtain ⟨rfl, -⟩ := Head.eq_of_prefix hgwf.toStartWF
      (fun f hf => (hgwf.fields_wf f hf).delimited) (Head.startWF_behind hwf n host)
      (Head.fields_behind hwf n hh) hr
    exact ⟨⟨hgwf, hlen⟩, rfl⟩
  · rintro ⟨⟨hb, hlen⟩, rfl⟩
    exact ⟨_, List.prefix_append _ _, hlen, hb, rfl⟩

/-- **When the next proxy accepts a request, and what it reads.** A proxy has forwarded a request to
`host`. Another proxy that receives the bytes accepts them exactly if two more fields than were kept
are not too many, the host is a valid value, and the head is not too long. It then reads the same
method, target, version and body; the fields are the new `Host`, those that were kept and `Via`. -/
theorem hop_accepted_iff {bytes host out : Bytes} {req : HttpRequest}
    (hc : parseInput bytes = (.complete, req)) (hh : lf ∉ host) (hs : hop bytes host = some out) :
    let kept := keptFields requestSkips req.headers
    let body := (bytes.drop req.headerBytes).take req.contentLength
    ((parseInput out).1 = .complete ↔ kept.length + 2 ≤ maxHeaderCount ∧
      validHeaderValue host = true ∧ (trimOws host).length ≤ maxHeaderValue ∧
      out.length - body.length ≤ maxHeaderBytes) ∧
    ∀ req', parseInput out = (.complete, req') →
      req'.method = req.method ∧ req'.target = req.target ∧ req'.version = req.version ∧
      req'.headers = ⟨ascii "Host", trimOws host⟩ ::
        (kept ++ [⟨ascii "Via", ascii "1.1 uproxy"⟩]) ∧
      req'.contentLength = req.contentLength ∧ req'.chunked = false ∧
      out.drop req'.headerBytes = body := by
  intro kept body
  obtain ⟨h, hwf, rfl, hbody, rfl⟩ := hop_request hc hs
  have hread : ∀ req', parseInput ((h.behind 1 host).render ++ body) = (.complete, req') ↔ _ :=
    fun _ => parseInput_behind_iff hwf 1 hh body
  constructor
  · have hout : ((h.behind 1 host).render ++ body).length - body.length =
        (h.behind 1 host).render.length := by
      rw [List.length_append]
      omega
    rw [hout]
    have hiff := Head.wf_behind_iff hwf 1 host
    constructor
    · intro hcomplete
      obtain ⟨⟨hb, hle⟩, -⟩ := (hread _).mp (Prod.ext hcomplete rfl)
      obtain ⟨h1, h2, h3⟩ := hiff.mp hb
      exact ⟨h1, h2, h3, hle⟩
    · rintro ⟨h1, h2, h3, hle⟩
      rw [(hread _).mpr ⟨⟨hiff.mpr ⟨h1, h2, h3⟩, hle⟩, rfl⟩]
  · intro req' hreq'
    obtain ⟨-, rfl⟩ := (hread req').mp hreq'
    exact ⟨rfl, rfl, rfl, h.headers_behind 1 host, h.contentLength_behind 1 host,
      h.chunked_behind 1 host, List.drop_left⟩

/-- A request with a field that is dropped, one that is kept, and a body. -/
def chainPost : Bytes :=
  ascii "POST / HTTP/1.1\r\nHost: a\r\nContent-Length: 2\r\n\r\nhi"

def sampleRequest : HttpRequest := (parseInput chainPost).2

theorem chainPost_complete : parseInput chainPost = (.complete, sampleRequest) :=
  Prod.ext (by decide +kernel) rfl

/-- What is sent on for it. -/
def sampleHop : Bytes := (hop chainPost (ascii "b:80")).getD []

theorem chainPost_hop : hop chainPost (ascii "b:80") = some sampleHop := by decide +kernel

/-- The next proxy accepts it. -/
theorem hop_accepted_iff_post :
    sampleHop = ascii
      "POST / HTTP/1.1\r\nHost: b:80\r\nContent-Length: 2\r\nVia: 1.1 uproxy\r\n\r\nhi" ∧
    (parseInput sampleHop).1 = .complete := by
  refine ⟨by decide +kernel, (hop_accepted_iff chainPost_complete (by decide) chainPost_hop).1.mpr
    ⟨by decide +kernel, by decide +kernel, by decide +kernel, by decide +kernel⟩⟩

/-! ## Chains -/

/-- The bytes behind a proxy pass through more of them. -/
theorem chain_behind {h : Head} (hwf : h.WF) {body out : Bytes}
    (hbody : body.length = h.contentLength) : ∀ {hosts : List Bytes} {n : Nat} {host : Bytes},
    lf ∉ host → (∀ x ∈ hosts, lf ∉ x) →
    hosts.foldlM hop ((h.behind n host).render ++ body) = some out →
    out = (h.behind (n + hosts.length) (hosts.getLastD host)).render ++ body ∧
      (hosts ≠ [] →
        (keptFields requestSkips h.headers).length + n + hosts.length ≤ maxHeaderCount)
  | [], n, host, _, _, hrun => by
    cases hrun
    exact ⟨rfl, fun hne => absurd rfl hne⟩
  | x :: hosts, n, host, hh, hall, hrun => by
    obtain ⟨mid, hmid, hrun⟩ := Option.bind_eq_some_iff.mp hrun
    obtain ⟨g, body', rest, hgwf, -, -, hlen', hbytes, rfl⟩ := hop_eq_some_iff.mp hmid
    rw [List.append_assoc] at hbytes
    -- the head the proxy reads is the one that was written
    obtain ⟨rfl, hrest⟩ := Head.eq_of_prefix hgwf.toStartWF
      (fun f hf => (hgwf.fields_wf f hf).delimited) (Head.startWF_behind hwf n host)
      (Head.fields_behind hwf n hh) hbytes.symm
    rw [h.contentLength_behind, ← hbody] at hlen'
    have hnil : rest = [] := by
      have := congrArg List.length hrest
      rw [List.length_append] at this
      exact List.length_eq_zero_iff.mp (by omega)
    rw [hnil, List.append_nil] at hrest
    rw [hrest, h.behind_behind] at hrun
    obtain ⟨hout, hcount⟩ := chain_behind hwf hbody (hall x List.mem_cons_self)
      (fun y hy => hall y (List.mem_cons_of_mem x hy)) hrun
    have hfields := (Head.wf_behind_iff hwf n host).mp hgwf |>.1
    refine ⟨?_, fun _ => ?_⟩
    · rw [hout, List.getLastD_cons, List.length_cons, Nat.add_assoc, Nat.add_comm 1]
    · rw [List.length_cons]
      cases hosts with
      | nil => exact hfields
      | cons y hosts =>
        have := hcount (List.cons_ne_nil y hosts)
        omega

/-- **What the upstream behind a chain of proxies receives**: the start line of the client, the
`Host` of the last hop, the fields that are kept, one `Via` for every proxy, and the body. -/
theorem proxy_chain {bytes host out : Bytes} {hosts : List Bytes} {req : HttpRequest}
    (hc : parseInput bytes = (.complete, req)) (hh : ∀ x ∈ host :: hosts, lf ∉ x)
    (hrun : (host :: hosts).foldlM hop bytes = some out) :
    let start := req.method ++ sp :: (req.target ++ sp :: req.version)
    let kept := keptFields requestSkips req.headers
    let body := (bytes.drop req.headerBytes).take req.contentLength
    out = joinLines cr lf ([start, ascii "Host: " ++ hosts.getLastD host] ++ kept.map fieldText ++
      List.replicate (hosts.length + 1) (ascii "Via: 1.1 uproxy")) ++ crlf ++ body ∧
    (hosts ≠ [] → kept.length + (hosts.length + 1) ≤ maxHeaderCount) := by
  intro start kept body
  obtain ⟨mid, hmid, hrun⟩ := Option.bind_eq_some_iff.mp hrun
  obtain ⟨h, hwf, rfl, hbody, rfl⟩ := hop_request hc hmid
  obtain ⟨hout, hcount⟩ := chain_behind hwf hbody (hh host List.mem_cons_self)
    (fun x hx => hh x (List.mem_cons_of_mem host hx)) hrun
  refine ⟨?_, fun hne => ?_⟩
  · rw [hout, h.render_behind_lines, Nat.add_comm 1]
    rfl
  · have := hcount hne
    show (keptFields requestSkips h.headers).length + (hosts.length + 1) ≤ maxHeaderCount
    omega

/-- Two proxies. -/
theorem proxy_chain_two :
    ∃ out, [ascii "b:80", ascii "c:80"].foldlM hop chainPost = some out ∧
      out = joinLines cr lf ([ascii "POST / HTTP/1.1", ascii "Host: c:80",
        ascii "Content-Length: 2"] ++ List.replicate 2 (ascii "Via: 1.1 uproxy")) ++ crlf ++
          ascii "hi" := by
  have hrun : [ascii "b:80", ascii "c:80"].foldlM hop chainPost =
      some (([ascii "b:80", ascii "c:80"].foldlM hop chainPost).getD []) := by decide +kernel
  refine ⟨_, hrun, (proxy_chain chainPost_complete (by decide) hrun).1.trans ?_⟩
  decide +kernel

/-- **A loop of proxies ends**: whatever the request and the hosts, no request is forwarded more
than a hundred times. -/
theorem proxy_loop_ends (bytes : Bytes) (hosts : List Bytes) (hh : ∀ x ∈ hosts, lf ∉ x)
    (hlong : maxHeaderCount < hosts.length) : hosts.foldlM hop bytes = none := by
  cases hrun : hosts.foldlM hop bytes with
  | none => rfl
  | some out =>
    obtain ⟨host, hosts, rfl⟩ : ∃ x xs, hosts = x :: xs :=
      List.exists_cons_of_length_pos (by omega)
    obtain ⟨mid, hmid, hrest⟩ := Option.bind_eq_some_iff.mp hrun
    obtain ⟨h, body, rest, hwf, -, -, hbody, -, rfl⟩ := hop_eq_some_iff.mp hmid
    obtain ⟨-, hcount⟩ := chain_behind hwf hbody (hh host List.mem_cons_self)
      (fun x hx => hh x (List.mem_cons_of_mem host hx)) hrest
    rw [List.length_cons] at hlong
    have := hcount (fun h => by rw [h] at hlong; exact absurd hlong (by decide))
    omega

/-- A proxy that is its own upstream. -/
theorem proxy_loop_ends_self :
    (List.replicate 101 (ascii "b:80")).foldlM hop chainPost = none :=
  proxy_loop_ends chainPost _ (fun x hx => by rw [List.eq_of_mem_replicate hx]; decide)
    (by rw [List.length_replicate]; decide)

end Uproxy
