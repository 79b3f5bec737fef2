import Uproxy.Pool.Balancer

/-!
# Which upstream a pool connects to

The load balancer returns endpoints, and `PoolManager::get` finds the pool of an endpoint by its
name, which is a display name: the one configured, or `addr:port` where none is. A pool connects to
the endpoint it was made for, the first one of its name.

* `PoolManager.Keyed`: every pool stands under the name of its own endpoint. `get`, `put` and `tick`
  keep that;
* `Router` is a balancer with its pools and the endpoints `next` has returned so far;
* **`requests_reach_selected`**: whatever is called, each of these endpoints gets a pool for its own
  address and port, exactly when no two healthy upstreams of different address or port share a
  name. `config_validate` does not ask for that.
-/

namespace Uproxy

open Lib.Run

/-! ## Pools under names -/

namespace PoolManager

/-- Every pool stands under the name of the endpoint it connects to, which is one of `S`. -/
def Keyed (eps : List UpstreamEndpoint) (S : Nat → Prop) (m : PoolManager) : Prop :=
  ∀ key p, m.pools key = some p → S p.endpoint ∧ (eps.getD p.endpoint {}).name = key

variable {eps : List UpstreamEndpoint} {S T : Nat → Prop} {m : PoolManager}

theorem Keyed.empty (cfg : PoolConfig) : Keyed eps S { cfg } := by
  intro key p h
  cases h

theorem Keyed.mono (h : Keyed eps S m) (hS : ∀ i, S i → T i) : Keyed eps T m :=
  fun key p hp => ⟨hS _ (h key p hp).1, (h key p hp).2⟩

/-- A pool whose endpoint has the name it is put under. -/
theorem Keyed.put {p : UpstreamPool} (h : Keyed eps S m) (hp : S p.endpoint) :
    Keyed eps S (m.put (eps.getD p.endpoint {}).name p) := by
  intro key q hq
  simp only [PoolManager.put, Function.update_apply] at hq
  split_ifs at hq with hkey
  · obtain rfl := Option.some.inj hq
    exact ⟨hp, hkey.symm⟩
  · exact h key q hq

theorem Keyed.tick (h : Keyed eps S m) (ts : Nat) : Keyed eps S (m.tick ts) := by
  intro key q hq
  obtain ⟨p, hp, rfl⟩ := Option.map_eq_some_iff.mp hq
  exact h key p hp

/-- The two ways through `get`: the pool that stands under the name, or a new one. -/
theorem get_cases (m : PoolManager) (eps : List UpstreamEndpoint) (up : Nat) :
    (∃ p, m.pools (eps.getD up {}).name = some p ∧ m.get eps up = (p, m)) ∨
    (m.pools (eps.getD up {}).name = none ∧
      m.get eps up = ({ endpoint := up, cfg := m.cfg },
        m.put (eps.getD up {}).name { endpoint := up, cfg := m.cfg })) := by
  unfold get
  cases hp : m.pools (eps.getD up {}).name with
  | some p => exact Or.inl ⟨p, rfl, by simp only [hp]⟩
  | none => exact Or.inr ⟨rfl, by simp only [hp]; rfl⟩

/-- `get` returns a pool whose endpoint has the name asked for. -/
theorem Keyed.get (h : Keyed eps S m) {up : Nat} (hup : S up) :
    Keyed eps S (m.get eps up).2 ∧ S (m.get eps up).1.endpoint ∧
      (eps.getD (m.get eps up).1.endpoint {}).name = (eps.getD up {}).name := by
  rcases m.get_cases eps up with ⟨p, hp, heq⟩ | ⟨-, heq⟩ <;> rw [heq]
  · exact ⟨h, h _ p hp⟩
  · exact ⟨h.put (p := { endpoint := up, cfg := m.cfg }) hup, hup, rfl⟩

/-- The pool `get` has made for one endpoint is the one it returns for any other of its name. -/
theorem get_get {i j : Nat} (hi : m.pools (eps.getD i {}).name = none)
    (hname : (eps.getD i {}).name = (eps.getD j {}).name) :
    ((m.get eps i).2.get eps j).1.endpoint = i := by
  rcases m.get_cases eps i with ⟨p, hp, -⟩ | ⟨-, heq⟩
  · rw [hi] at hp
    cases hp
  · rw [heq]
    simp only [PoolManager.get, PoolManager.put, ← hname, Function.update_self]

end PoolManager

/-! ## Calls -/

/-- A call of `next`, or of `get` on an endpoint. -/
inductive RouteCall where
  | next
  | get (up : Nat)
  deriving DecidableEq, Repr

/-- The load balancer, the pools, and the endpoints `next` has returned. -/
structure Router where
  lb       : WeightedRoundRobin
  pools    : PoolManager
  returned : List Nat := []

namespace Router

/-- What the pools see of the endpoints. -/
def endpoints (r : Router) : List UpstreamEndpoint :=
  r.lb.endpoints.map LbEndpoint.toUpstreamEndpoint

/-- The pool `get` returns for an endpoint. -/
def pool (r : Router) (up : Nat) : UpstreamPool := (r.pools.get r.endpoints up).1

/-- One call; `get` is called on endpoints that `next` has returned. -/
def step (r : Router) : RouteCall → Router
  | .next => { r with lb := r.lb.next.2, returned := r.lb.next.1.toList ++ r.returned }
  | .get up => if up ∈ r.returned then { r with pools := (r.pools.get r.endpoints up).2 } else r

/-- The balancer and the pools `ProxyServer` begins with. -/
def start (cfg : ProxyConfig) : Router where
  lb := .new cfg.upstreams
  pools := { cfg := cfg.pool }

end Router

namespace WeightedRoundRobin

/-- What `next` returns is healthy. -/
theorem next_active {lb : WeightedRoundRobin} {j : Nat} (h : lb.next.1 = some j) :
    j ∈ lb.active := by
  rcases lb.active.eq_empty_or_nonempty with h0 | hne
  · rw [(next_none h0).1] at h
    cases h
  · obtain ⟨i, hi, hrich, -⟩ := next_spec hne
    obtain rfl : i = j := Option.some.inj (hi.symm.trans h)
    exact hrich.1

/-- A call of `next` counts a request on the endpoint it returns, and that is all it does to the
endpoints. -/
theorem next_counts (lb : WeightedRoundRobin) :
    (lb.next.1 = none ∧ lb.next.2.endpoints = lb.endpoints) ∨
    ∃ j < lb.endpoints.length, lb.next.1 = some j ∧
      lb.next.2.endpoints = lb.endpoints.modify j fun ep =>
        { ep with totalRequests := ep.totalRequests + 1 } := by
  rcases hnext : lb.next.1 with _ | j
  · refine Or.inl ⟨rfl, ?_⟩
    rcases lb.active.eq_empty_or_nonempty with h0 | hne
    · exact (next_none h0).2.1
    · obtain ⟨j, hj, -⟩ := next_spec hne
      rw [hnext] at hj
      cases hj
  · refine Or.inr ⟨j, (mem_healthyBelow.mp (next_active hnext)).1, rfl, ?_⟩
    cases hb : (lb.scan lb.endpoints.length).best with
    | none => simp [next, hb] at hnext
    | some b =>
      simp only [next, hb] at hnext ⊢
      split_ifs at hnext ⊢
      cases hnext
      rfl

/-- The pools see no change. -/
theorem next_endpoints (lb : WeightedRoundRobin) :
    lb.next.2.endpoints.map LbEndpoint.toUpstreamEndpoint =
      lb.endpoints.map LbEndpoint.toUpstreamEndpoint := by
  rcases lb.next_counts with ⟨-, heq⟩ | ⟨j, -, -, heq⟩
  · rw [heq]
  · rw [heq]
    refine List.ext_getElem? fun i => ?_
    rw [List.getElem?_map, List.getElem?_map, List.getElem?_modify]
    cases lb.endpoints[i]? with
    | none => rfl
    | some ep =>
      simp only [Option.map_eq_map, Option.map_some]
      split_ifs <;> rfl

/-- Every healthy endpoint has its turn within a period. -/
theorem mem_calls_period {configs : List UpstreamConfig} {i : Nat}
    (hi : i ∈ (new configs).active) :
    some i ∈ (calls (new configs).healthyWeight (new configs)).1 := by
  have hshare := (calls_multiple ⟨i, hi⟩ 1).1 i hi
  have hpos := weight_pos_of_mem hi
  rw [Nat.one_mul, Nat.cast_one, one_mul] at hshare
  have hcount : 0 < (new configs).returned (new configs).healthyWeight i := by omega
  exact List.count_pos_iff.mp hcount

theorem mem_active_new {configs : List UpstreamConfig} {i : Nat} :
    i ∈ (new configs).active ↔ ∃ u, configs[i]? = some u ∧ u.healthy = true := by
  rw [active, mem_healthyBelow]
  show i < (configs.map LbEndpoint.ofConfig).length ∧
    ((configs.map LbEndpoint.ofConfig).getD i {}).healthy = true ↔ _
  rw [List.length_map, List.getD_eq_getElem?_getD, List.getElem?_map]
  constructor
  · rintro ⟨hlt, hh⟩
    rw [List.getElem?_eq_getElem hlt] at hh
    exact ⟨configs[i], List.getElem?_eq_getElem hlt, hh⟩
  · rintro ⟨u, hu, hh⟩
    rw [hu]
    exact ⟨(List.getElem?_eq_some_iff.mp hu).1, hh⟩

end WeightedRoundRobin

namespace Router

theorem step_endpoints (r : Router) (c : RouteCall) : (r.step c).endpoints = r.endpoints := by
  cases c with
  | next => exact r.lb.next_endpoints
  | get up =>
    simp only [step]
    split_ifs <;> rfl

/-- Behind any calls: the endpoints are those of the configuration, those returned are healthy, and
the pools stand under the names of returned endpoints. -/
structure Inv (cfg : ProxyConfig) (r : Router) : Prop where
  endpoints_eq : r.endpoints = (start cfg).endpoints
  shares       : (start cfg).lb.SameShares r.lb
  healthy      : ∀ up ∈ r.returned, up ∈ (start cfg).lb.active
  keyed        : r.pools.Keyed r.endpoints (· ∈ r.returned)

theorem Inv.start (cfg : ProxyConfig) : Inv cfg (.start cfg) :=
  ⟨rfl, .refl _, List.forall_mem_nil _, .empty _⟩

theorem Inv.step {cfg : ProxyConfig} {r : Router} (h : Inv cfg r) (c : RouteCall) :
    Inv cfg (r.step c) := by
  have heps := r.step_endpoints c
  cases c with
  | next =>
    refine ⟨heps.trans h.endpoints_eq, h.shares.trans r.lb.next_keeps.1, fun up hup => ?_, ?_⟩
    · rcases List.mem_append.mp hup with hnew | hold
      · rw [← h.shares.active]
        exact WeightedRoundRobin.next_active (Option.mem_toList.mp hnew)
      · exact h.healthy up hold
    · rw [heps]
      exact h.keyed.mono fun i hi => List.mem_append_right _ hi
  | get up =>
    simp only [Router.step]
    split_ifs with hup
    · exact ⟨h.endpoints_eq, h.shares, h.healthy, (h.keyed.get hup).1⟩
    · exact h

theorem inv_run (cfg : ProxyConfig) (calls : List RouteCall) :
    Inv cfg (run Router.step (.start cfg) calls) :=
  run_inv (fun _ c h => h.step c) calls (.start cfg)

/-- Calls of `next` alone: what they return, and no pool yet. -/
theorem run_next : ∀ (n : Nat) (r : Router),
    let r' := run Router.step r (List.replicate n .next)
    (∀ i, some i ∈ (WeightedRoundRobin.calls n r.lb).1 → i ∈ r'.returned) ∧
      (∀ i ∈ r.returned, i ∈ r'.returned) ∧ r'.pools = r.pools
  | 0, r => ⟨fun i hi => absurd hi List.not_mem_nil, fun _ hi => hi, rfl⟩
  | n + 1, r => by
    obtain ⟨hcalls, hkeep, hpools⟩ := run_next n (r.step .next)
    refine ⟨fun i hi => ?_, fun i hi => hkeep i (List.mem_append_right _ hi), hpools⟩
    rcases List.mem_cons.mp (show some i ∈
      r.lb.next.1 :: (WeightedRoundRobin.calls n r.lb.next.2).1 from hi) with hhead | htail
    · exact hkeep i (List.mem_append_left _ (Option.mem_toList.mpr hhead.symm))
    · exact hcalls i htail

end Router

/-! ## Names and targets -/

/-- The name an upstream goes by. -/
def UpstreamConfig.displayName (u : UpstreamConfig) : Bytes := (LbEndpoint.ofConfig u).name

/-- Healthy upstreams that share a name share their address and port. -/
def ProxyConfig.NamesTargets (cfg : ProxyConfig) : Prop :=
  ∀ u ∈ cfg.upstreams, ∀ v ∈ cfg.upstreams, u.healthy = true → v.healthy = true →
    u.displayName = v.displayName → u.addr = v.addr ∧ u.port = v.port

instance ProxyConfig.instDecidableNamesTargets (cfg : ProxyConfig) : Decidable cfg.NamesTargets :=
  inferInstanceAs (Decidable (∀ u ∈ cfg.upstreams, ∀ v ∈ cfg.upstreams, u.healthy = true →
    v.healthy = true → u.displayName = v.displayName → u.addr = v.addr ∧ u.port = v.port))

namespace Router

/-- The pool of an endpoint connects to the endpoint's own address and port. -/
def Reaches (r : Router) (up : Nat) : Prop :=
  (r.endpoints.getD (r.pool up).endpoint {}).addr = (r.endpoints.getD up {}).addr ∧
    (r.endpoints.getD (r.pool up).endpoint {}).port = (r.endpoints.getD up {}).port

theorem endpoint_start {cfg : ProxyConfig} {i : Nat} {u : UpstreamConfig}
    (h : cfg.upstreams[i]? = some u) :
    (start cfg).endpoints.getD i {} = (LbEndpoint.ofConfig u).toUpstreamEndpoint := by
  show ((cfg.upstreams.map LbEndpoint.ofConfig).map LbEndpoint.toUpstreamEndpoint).getD i {} = _
  rw [List.getD_eq_getElem?_getD, List.getElem?_map, List.getElem?_map, h]
  rfl

theorem Inv.reaches {cfg : ProxyConfig} {r : Router} (h : Inv cfg r) (hcfg : cfg.NamesTargets)
    {up : Nat} (hup : up ∈ r.returned) : r.Reaches up := by
  obtain ⟨-, hmem, hname⟩ := h.keyed.get hup
  obtain ⟨u, hu, hhealthy⟩ := WeightedRoundRobin.mem_active_new.mp (h.healthy up hup)
  obtain ⟨v, hv, hhealthy'⟩ := WeightedRoundRobin.mem_active_new.mp (h.healthy _ hmem)
  unfold Reaches pool
  rw [h.endpoints_eq] at hname hv ⊢
  rw [endpoint_start hv, endpoint_start hu] at hname ⊢
  exact hcfg v (List.mem_of_getElem? hv) u (List.mem_of_getElem? hu) hhealthy' hhealthy hname

/-- Two healthy upstreams of one name: behind a period of calls of `next`, the pool made for the
first is the pool of the second. -/
theorem shares_pool {cfg : ProxyConfig} {i j : Nat} (hi : i ∈ (start cfg).lb.active)
    (hj : j ∈ (start cfg).lb.active)
    (hname : ((start cfg).endpoints.getD i {}).name = ((start cfg).endpoints.getD j {}).name) :
    let r := run Router.step (start cfg)
      (List.replicate (start cfg).lb.healthyWeight .next ++ [.get i])
    r.endpoints = (start cfg).endpoints ∧ j ∈ r.returned ∧ (r.pool j).endpoint = i := by
  intro r
  let r₀ := run Router.step (start cfg) (List.replicate (start cfg).lb.healthyWeight .next)
  obtain ⟨hcalls, -, hpools⟩ := run_next (start cfg).lb.healthyWeight (start cfg)
  have heps : r₀.endpoints = (start cfg).endpoints := (inv_run cfg _).endpoints_eq
  have hi₀ : i ∈ r₀.returned := hcalls i (WeightedRoundRobin.mem_calls_period hi)
  have hj₀ : j ∈ r₀.returned := hcalls j (WeightedRoundRobin.mem_calls_period hj)
  have hr : r = { r₀ with pools := (r₀.pools.get r₀.endpoints i).2 } := by
    show run Router.step (start cfg) (_ ++ [.get i]) = _
    rw [run_concat]
    exact if_pos hi₀
  have hnone : r₀.pools.pools (r₀.endpoints.getD i {}).name = none := by
    rw [show r₀.pools = (start cfg).pools from hpools]
    rfl
  rw [hr]
  exact ⟨heps, hj₀, PoolManager.get_get hnone (heps ▸ hname)⟩

end Router

/-- **Requests go to the endpoint that was selected** exactly when upstreams are told apart by their
names. -/
theorem requests_reach_selected {isFile : Bytes → Bool} {loaded cfg : ProxyConfig}
    (h : configValidate isFile loaded = .ok cfg) :
    (∀ calls : List RouteCall,
      let r := run Router.step (.start cfg) calls
      ∀ up ∈ r.returned, r.Reaches up) ↔ loaded.NamesTargets := by
  obtain ⟨rfl, -⟩ := configValidate_eq_ok_iff.mp h
  constructor
  · intro hreach u hu v hv hhu hhv hname
    obtain ⟨i, hi⟩ := List.mem_iff_getElem?.mp hu
    obtain ⟨j, hj⟩ := List.mem_iff_getElem?.mp hv
    have hends : ((Router.start cfg).endpoints.getD i {}).name =
        ((Router.start cfg).endpoints.getD j {}).name := by
      rw [Router.endpoint_start hi, Router.endpoint_start hj]
      exact hname
    obtain ⟨heps, hret, hpool⟩ := Router.shares_pool
      (WeightedRoundRobin.mem_active_new.mpr ⟨u, hi, hhu⟩)
      (WeightedRoundRobin.mem_active_new.mpr ⟨v, hj, hhv⟩) hends
    have hright := hreach _ j hret
    unfold Router.Reaches at hright
    rw [hpool, heps, Router.endpoint_start hi, Router.endpoint_start hj] at hright
    exact hright
  · intro hcfg calls r up hup
    exact (Router.inv_run cfg calls).reaches hcfg hup

/-- Two backends without names of their own. -/
def twoBackends : ProxyConfig where
  tls := { enabled := false }
  upstreams := [{ addr := ascii "10.0.0.1", port := 80 }, { addr := ascii "10.0.0.2", port := 80 }]

theorem requests_reach_selected_unnamed :
    configValidate (fun _ => false) twoBackends = .ok twoBackends ∧
      ∀ calls : List RouteCall, ∀ up ∈ (run Router.step (.start twoBackends) calls).returned,
        (run Router.step (.start twoBackends) calls).Reaches up :=
  have h : configValidate (fun _ => false) twoBackends = .ok twoBackends := by decide +kernel
  ⟨h, (requests_reach_selected h).mpr (by decide +kernel)⟩

/-- The same two backends, both named `api`. -/
def sameName : ProxyConfig where
  tls := { enabled := false }
  upstreams := [{ name := ascii "api", addr := ascii "10.0.0.1", port := 80 },
    { name := ascii "api", addr := ascii "10.0.0.2", port := 80 }]

/-- The configuration is accepted, and the second backend's requests go to the first. -/
theorem requests_reach_selected_clash :
    configValidate (fun _ => false) sameName = .ok sameName ∧
      let r := run Router.step (.start sameName) [.next, .get 0, .next]
      1 ∈ r.returned ∧ (r.endpoints.getD 1 {}).addr = ascii "10.0.0.2" ∧
        (r.endpoints.getD (r.pool 1).endpoint {}).addr = ascii "10.0.0.1" := by
  decide +kernel

end Uproxy
