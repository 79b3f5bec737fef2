import Uproxy.Http1.Serializer
import Uproxy.Lib.Credit
import Uproxy.Lib.Run
import Uproxy.Pool.Upstream
import Mathlib.Data.Rat.Floor

/-!
# Smooth weighted round robin (`load_balancer.cpp`)

`WeightedRoundRobin::next` adds to the current weight of every healthy endpoint its weight, picks
the first of those with the largest current weight and takes the total of the weights off it. The
calls hold a mutex, so a run is a sequence of calls. Current weights are `int64_t`; they are whole
numbers here, and `next_fits` shows that with at most `2 ^ 15` endpoints no addition of a balancer
whose endpoints keep their health leaves the range.

* `scan_spec`: the loop of `next` finds a richest endpoint, so a call is a turn of `Lib.Credit`
  (`next_spec`);
* **`wrr_exact`**: with health unchanged every healthy endpoint gets its share, rounded up at most,
  exactly its share in every period, and the sequence repeats;
* **`wrr_recovers`**: after any history the current weights add up to 0, and from then on every
  healthy endpoint stays within a fixed distance of its share.
-/

namespace Uproxy

open Lib.Credit Lib.Run Finset

/-! ## The code -/

/-- `UpstreamEndpoint` with the members load balancing uses. -/
structure LbEndpoint extends UpstreamEndpoint where
  weight        : UInt32 := 1
  healthy       : Bool := true
  totalRequests : Nat := 0
  deriving DecidableEq, Repr

/-- The endpoint the constructor makes of a configuration. -/
def LbEndpoint.ofConfig (cfg : UpstreamConfig) : LbEndpoint where
  addr := cfg.addr
  port := cfg.port
  weight := max 1 cfg.weight
  name := if cfg.name = [] then cfg.addr ++ colon :: decimal cfg.port.toNat else cfg.name
  healthy := cfg.healthy

/-- `WeightedRoundRobin`: one current weight for each endpoint, and no weight is 0. -/
structure WeightedRoundRobin where
  endpoints      : List LbEndpoint
  currentWeights : List Int
  length_eq      : currentWeights.length = endpoints.length
  weight_pos     : ∀ ep ∈ endpoints, 0 < ep.weight.toNat

theorem LbEndpoint.ofConfig_weight_pos (cfg : UpstreamConfig) :
    0 < (LbEndpoint.ofConfig cfg).weight.toNat := by
  have h : (1 : UInt32) ≤ max 1 cfg.weight := by
    simp only [max]
    split_ifs with h
    · exact h
    · exact UInt32.le_refl 1
  exact UInt32.le_iff_toNat_le.mp h

namespace WeightedRoundRobin

/-- `WeightedRoundRobin::WeightedRoundRobin`. -/
def new (configs : List UpstreamConfig) : WeightedRoundRobin where
  endpoints := configs.map LbEndpoint.ofConfig
  currentWeights := configs.map fun _ => 0
  length_eq := by rw [List.length_map, List.length_map]
  weight_pos := by
    intro ep hep
    obtain ⟨cfg, -, rfl⟩ := List.mem_map.mp hep
    exact LbEndpoint.ofConfig_weight_pos cfg

/-- The variables of the loop of `next`; `best` is `none` for -1. -/
structure Scan where
  weights : List Int
  total   : Int := 0
  best    : Option Nat := none
  deriving DecidableEq, Repr

/-- `best` behind the comparison with `i`. -/
def better (weights : List Int) (i : Nat) : Option Nat → Option Nat
  | none => some i
  | some b => if weights.getD i 0 > weights.getD b 0 then some i else some b

/-- The body of the loop. -/
def scanStep (endpoints : List LbEndpoint) (s : Scan) (i : Nat) : Scan :=
  let ep := endpoints.getD i {}
  if ¬ ep.healthy then s
  else
    let weights := s.weights.set i (s.weights.getD i 0 + ep.weight.toNat)
    { weights, total := s.total + ep.weight.toNat, best := better weights i s.best }

/-- The loop over the first `k` endpoints. -/
def scan (lb : WeightedRoundRobin) (k : Nat) : Scan :=
  (List.range k).foldl (scanStep lb.endpoints) { weights := lb.currentWeights }

theorem scan_succ (lb : WeightedRoundRobin) (k : Nat) :
    lb.scan (k + 1) = scanStep lb.endpoints (lb.scan k) k := by
  unfold scan
  rw [List.range_succ, List.foldl_append]
  rfl

theorem scanStep_length (eps : List LbEndpoint) (s : Scan) (i : Nat) :
    (scanStep eps s i).weights.length = s.weights.length := by
  simp only [scanStep]
  split_ifs
  · exact List.length_set
  · rfl

theorem scan_length (lb : WeightedRoundRobin) (k : Nat) :
    (lb.scan k).weights.length = lb.endpoints.length := by
  induction k with
  | zero => exact lb.length_eq
  | succ k ih => rw [scan_succ, scanStep_length, ih]

/-- `next`: the position of the endpoint returned, `none` for a null pointer. -/
def next (lb : WeightedRoundRobin) : Option Nat × WeightedRoundRobin :=
  let s := lb.scan lb.endpoints.length
  match s.best with
  | none => (none, ⟨lb.endpoints, s.weights, lb.scan_length _, lb.weight_pos⟩)
  | some best =>
    if s.total = 0 then (none, ⟨lb.endpoints, s.weights, lb.scan_length _, lb.weight_pos⟩)
    else (some best,
      { endpoints := lb.endpoints.modify best fun ep =>
          { ep with totalRequests := ep.totalRequests + 1 }
        currentWeights := s.weights.set best (s.weights.getD best 0 - s.total)
        length_eq := by rw [List.length_set, List.length_modify, scan_length]
        weight_pos := by
          intro ep hep
          obtain ⟨ep', h', hw⟩ : ∃ ep' ∈ lb.endpoints, ep.weight = ep'.weight := by
            obtain ⟨i, hi⟩ := List.mem_iff_getElem?.mp hep
            rw [List.getElem?_modify] at hi
            obtain ⟨ep', hep', rfl⟩ := Option.map_eq_some_iff.mp hi
            refine ⟨ep', List.mem_of_getElem? hep', ?_⟩
            split_ifs <;> rfl
          exact hw ▸ lb.weight_pos ep' h' })

/-- `mark_unhealthy` and `mark_healthy`. -/
def mark (lb : WeightedRoundRobin) (healthy : Bool) (name : Bytes) : WeightedRoundRobin where
  endpoints := lb.endpoints.map fun ep => if ep.name = name then { ep with healthy } else ep
  currentWeights := lb.currentWeights
  length_eq := by rw [List.length_map, lb.length_eq]
  weight_pos := by
    intro ep hep
    obtain ⟨ep', h', rfl⟩ := List.mem_map.mp hep
    split_ifs
    · exact lb.weight_pos ep' h'
    · exact lb.weight_pos ep' h'

def markUnhealthy (lb : WeightedRoundRobin) (name : Bytes) : WeightedRoundRobin :=
  lb.mark false name

def markHealthy (lb : WeightedRoundRobin) (name : Bytes) : WeightedRoundRobin :=
  lb.mark true name

/-- `n` calls of `next`: what they return and the balancer behind them. -/
def calls : Nat → WeightedRoundRobin → List (Option Nat) × WeightedRoundRobin
  | 0, lb => ([], lb)
  | n + 1, lb =>
    let (j, lb') := lb.next
    let (js, lb'') := calls n lb'
    (j :: js, lb'')

/-! ## A call is a turn -/

/-- The healthy ones among the first `k` endpoints. -/
def healthyBelow (lb : WeightedRoundRobin) (k : Nat) : Finset Nat :=
  (range k).filter fun i => (lb.endpoints.getD i {}).healthy = true

/-- The positions of the healthy endpoints. -/
def active (lb : WeightedRoundRobin) : Finset Nat := lb.healthyBelow lb.endpoints.length

def weight (lb : WeightedRoundRobin) (i : Nat) : ℤ := (lb.endpoints.getD i {}).weight.toNat

def credit (lb : WeightedRoundRobin) (i : Nat) : ℤ := lb.currentWeights.getD i 0

theorem mem_healthyBelow {lb : WeightedRoundRobin} {k i : Nat} :
    i ∈ lb.healthyBelow k ↔ i < k ∧ (lb.endpoints.getD i {}).healthy = true := by
  rw [healthyBelow, mem_filter, mem_range]

theorem healthyBelow_succ (lb : WeightedRoundRobin) (k : Nat) :
    lb.healthyBelow (k + 1) = if (lb.endpoints.getD k {}).healthy = true
      then insert k (lb.healthyBelow k) else lb.healthyBelow k := by
  rw [healthyBelow, range_add_one, filter_insert]
  rfl

theorem getD_set {l : List Int} {i : Nat} (hi : i < l.length) (a : Int) (j : Nat) :
    (l.set i a).getD j 0 = if j = i then a else l.getD j 0 := by
  rw [List.getD_eq_getElem?_getD, List.getD_eq_getElem?_getD, List.getElem?_set]
  by_cases hj : j = i
  · subst hj
    simp [hi]
  · rw [if_neg (Ne.symm hj), if_neg hj]

theorem sum_set {l : List Int} {i : Nat} (hi : i < l.length) (a : Int) :
    (l.set i (l.getD i 0 + a)).sum = l.sum + a := by
  rw [List.sum_set', dif_pos hi, List.getD_eq_getElem?_getD, List.getElem?_eq_getElem hi,
    Option.getD_some]
  ring

/-- What the loop has done after the first `k` endpoints. -/
structure ScanSpec (lb : WeightedRoundRobin) (k : Nat) (s : Scan) : Prop where
  weights_eq : ∀ i, s.weights.getD i 0 =
    lb.credit i + if i ∈ lb.healthyBelow k then lb.weight i else 0
  total_eq : s.total = total (lb.healthyBelow k) lb.weight
  sum_eq : s.weights.sum = lb.currentWeights.sum + s.total
  best_none : s.best = none → lb.healthyBelow k = ∅
  best_some : ∀ b, s.best = some b → Richest (lb.healthyBelow k) lb.weight lb.credit b

theorem better_ne_none (weights : List Int) (i : Nat) (best : Option Nat) :
    better weights i best ≠ none := by
  cases best with
  | none => exact Option.some_ne_none i
  | some b =>
    rw [better]
    split_ifs
    · exact Option.some_ne_none i
    · exact Option.some_ne_none b

/-- `best` is a richest endpoint still. -/
theorem better_richest {weights : List Int} {S : Finset Nat} {w c : Nat → ℤ} {k b : Nat}
    {best : Option Nat} (hnone : best = none → S = ∅)
    (hsome : ∀ b, best = some b → Richest S w c b)
    (hv : ∀ i ∈ insert k S, weights.getD i 0 = c i + w i) (hb : better weights k best = some b) :
    Richest (insert k S) w c b := by
  cases best with
  | none =>
    obtain rfl : k = b := Option.some.inj hb
    rw [hnone rfl]
    exact richest_singleton c k
  | some b' =>
    have hrich := hsome b' rfl
    have hif : b = if c b' + w b' < c k + w k then k else b' := by
      simp only [better, gt_iff_lt, hv k (mem_insert_self k S),
        hv b' (mem_insert_of_mem hrich.1)] at hb
      split_ifs at hb ⊢ <;> exact (Option.some.inj hb).symm
    rw [hif]
    exact hrich.insert

theorem scanStep_spec {lb : WeightedRoundRobin} {k : Nat} (hk : k < lb.endpoints.length) {s : Scan}
    (hlen : s.weights.length = lb.endpoints.length) (h : ScanSpec lb k s) :
    ScanSpec lb (k + 1) (scanStep lb.endpoints s k) := by
  have hkk : k ∉ lb.healthyBelow k := fun hmem => Nat.lt_irrefl k (mem_healthyBelow.mp hmem).1
  by_cases hh : (lb.endpoints.getD k {}).healthy = true
  · have hbelow : lb.healthyBelow (k + 1) = insert k (lb.healthyBelow k) := by
      rw [healthyBelow_succ, if_pos hh]
    have hcur : s.weights.getD k 0 = lb.credit k := by
      rw [h.weights_eq, if_neg hkk, add_zero]
    have hset : ∀ i, (s.weights.set k (s.weights.getD k 0 + lb.weight k)).getD i 0 =
        lb.credit i + if i ∈ lb.healthyBelow (k + 1) then lb.weight i else 0 := by
      intro i
      rw [getD_set (by omega), hbelow]
      by_cases hi : i = k
      · subst hi
        rw [if_pos rfl, if_pos (mem_insert_self _ _), hcur]
      · rw [if_neg hi, h.weights_eq i]
        simp only [mem_insert, hi, false_or]
    have hstep : scanStep lb.endpoints s k =
        ⟨s.weights.set k (s.weights.getD k 0 + lb.weight k), s.total + lb.weight k,
          better (s.weights.set k (s.weights.getD k 0 + lb.weight k)) k s.best⟩ := by
      simp only [scanStep, hh, not_true, if_false]
      rfl
    rw [hstep]
    refine ⟨hset, ?_, ?_, fun hb => ?_, fun b hb => ?_⟩
    · simp only [h.total_eq, total, hbelow, sum_insert hkk]
      ring
    · simp only [sum_set (show k < s.weights.length by omega), h.sum_eq]
      ring
    · exact absurd hb (better_ne_none _ _ _)
    · rw [hbelow]
      refine better_richest h.best_none h.best_some (fun i hi => ?_) hb
      rw [hset, hbelow, if_pos hi]
  · have hbelow : lb.healthyBelow (k + 1) = lb.healthyBelow k := by
      rw [healthyBelow_succ, if_neg hh]
    have hstep : scanStep lb.endpoints s k = s := by simp only [scanStep, hh]; rfl
    rw [hstep]
    exact ⟨by rw [hbelow]; exact h.weights_eq, by rw [hbelow]; exact h.total_eq, h.sum_eq,
      by rw [hbelow]; exact h.best_none, by rw [hbelow]; exact h.best_some⟩

/-- **The loop** finds the total and a richest endpoint. -/
theorem scan_spec (lb : WeightedRoundRobin) {k : Nat} (hk : k ≤ lb.endpoints.length) :
    ScanSpec lb k (lb.scan k) := by
  induction k with
  | zero =>
    refine ⟨fun i => ?_, rfl, (add_zero _).symm, fun _ => rfl, fun b hb => by cases hb⟩
    exact (add_zero _).symm
  | succ k ih =>
    rw [scan_succ]
    exact scanStep_spec hk (lb.scan_length k) (ih (by omega))

theorem weight_pos_of_mem {lb : WeightedRoundRobin} {i : Nat} (hi : i ∈ lb.active) :
    0 < lb.weight i := by
  have hlt := (mem_healthyBelow.mp hi).1
  unfold weight
  rw [List.getD_eq_getElem?_getD, List.getElem?_eq_getElem hlt, Option.getD_some]
  exact Int.natCast_pos.mpr (lb.weight_pos _ (List.getElem_mem hlt))

theorem total_pos {lb : WeightedRoundRobin} (h : lb.active.Nonempty) :
    0 < total lb.active lb.weight :=
  sum_pos (fun _ hi => weight_pos_of_mem hi) h

/-- The two balancers have the same healthy endpoints and the same weights. -/
structure SameShares (lb lb' : WeightedRoundRobin) : Prop where
  length_eq  : lb'.endpoints.length = lb.endpoints.length
  healthy_eq : ∀ i, (lb'.endpoints.getD i {}).healthy = (lb.endpoints.getD i {}).healthy
  weight_eq  : ∀ i, (lb'.endpoints.getD i {}).weight = (lb.endpoints.getD i {}).weight

namespace SameShares

variable {lb lb' lb'' : WeightedRoundRobin}

theorem refl (lb : WeightedRoundRobin) : SameShares lb lb := ⟨rfl, fun _ => rfl, fun _ => rfl⟩

theorem trans (h : SameShares lb lb') (h' : SameShares lb' lb'') : SameShares lb lb'' :=
  ⟨h'.length_eq.trans h.length_eq, fun i => (h'.healthy_eq i).trans (h.healthy_eq i),
    fun i => (h'.weight_eq i).trans (h.weight_eq i)⟩

theorem active (h : SameShares lb lb') : lb'.active = lb.active := by
  unfold WeightedRoundRobin.active healthyBelow
  simp only [h.length_eq, h.healthy_eq]

theorem weight (h : SameShares lb lb') : lb'.weight = lb.weight := by
  funext i
  unfold WeightedRoundRobin.weight
  rw [h.weight_eq]

end SameShares

/-- Counting a request leaves health and weights alone. -/
theorem getD_modify (eps : List LbEndpoint) (j i : Nat) :
    let eps' := eps.modify j fun ep => { ep with totalRequests := ep.totalRequests + 1 }
    (eps'.getD i {}).healthy = (eps.getD i {}).healthy ∧
      (eps'.getD i {}).weight = (eps.getD i {}).weight := by
  simp only [List.getD_eq_getElem?_getD, List.getElem?_modify]
  cases eps[i]? with
  | none => exact ⟨rfl, rfl⟩
  | some ep =>
    simp only [Option.map_eq_map, Option.map_some, Option.getD_some]
    split_ifs <;> exact ⟨rfl, rfl⟩

/-- **A call is a turn** that a richest healthy endpoint takes. -/
theorem next_spec {lb : WeightedRoundRobin} (h : lb.active.Nonempty) :
    ∃ j, lb.next.1 = some j ∧ Richest lb.active lb.weight lb.credit j ∧
      lb.next.2.credit = turn lb.active lb.weight lb.credit j ∧ SameShares lb lb.next.2 ∧
      lb.next.2.currentWeights.sum = lb.currentWeights.sum := by
  have hs : ScanSpec lb lb.endpoints.length (lb.scan lb.endpoints.length) :=
    lb.scan_spec (Nat.le_refl _)
  have hlen := lb.scan_length lb.endpoints.length
  cases hb : (lb.scan lb.endpoints.length).best with
  | none => exact absurd (hs.best_none hb) h.ne_empty
  | some j =>
    have hj := hs.best_some j hb
    have hlt : j < lb.endpoints.length := (mem_healthyBelow.mp hj.1).1
    have htotal : (lb.scan lb.endpoints.length).total = total lb.active lb.weight := hs.total_eq
    have hne : (lb.scan lb.endpoints.length).total ≠ 0 := by
      rw [htotal]
      exact ne_of_gt (total_pos h)
    have hnext : lb.next.1 = some j ∧
        lb.next.2.endpoints = lb.endpoints.modify j (fun ep =>
          { ep with totalRequests := ep.totalRequests + 1 }) ∧
        lb.next.2.currentWeights = (lb.scan lb.endpoints.length).weights.set j
          ((lb.scan lb.endpoints.length).weights.getD j 0 -
            (lb.scan lb.endpoints.length).total) := by
      simp [next, hb, hne]
    obtain ⟨h1, h2, h3⟩ := hnext
    refine ⟨j, h1, hj, ?_, ⟨by rw [h2, List.length_modify], fun i => ?_, fun i => ?_⟩, ?_⟩
    · funext i
      show lb.next.2.currentWeights.getD i 0 = _
      rw [h3, getD_set (by omega), htotal, hs.weights_eq j, if_pos hj.1, turn]
      by_cases hi : i = j
      · subst hi
        rw [if_pos rfl, if_pos rfl, if_pos (show i ∈ lb.active from hj.1)]
      · rw [if_neg hi, if_neg hi, hs.weights_eq i, sub_zero]
        rfl
    · rw [h2]
      exact (getD_modify lb.endpoints j i).1
    · rw [h2]
      exact (getD_modify lb.endpoints j i).2
    · rw [h3, sub_eq_add_neg, sum_set (by omega), hs.sum_eq]
      ring

/-- With no healthy endpoint a call returns null and adds nothing. -/
theorem next_none {lb : WeightedRoundRobin} (h : lb.active = ∅) :
    lb.next.1 = none ∧ lb.next.2.endpoints = lb.endpoints ∧
      lb.next.2.currentWeights.sum = lb.currentWeights.sum := by
  have hs : ScanSpec lb lb.endpoints.length (lb.scan lb.endpoints.length) :=
    lb.scan_spec (Nat.le_refl _)
  have htotal : (lb.scan lb.endpoints.length).total = 0 := by
    rw [hs.total_eq, show lb.healthyBelow lb.endpoints.length = ∅ from h]
    rfl
  have hsum := hs.sum_eq
  rw [htotal, add_zero] at hsum
  cases hb : (lb.scan lb.endpoints.length).best with
  | none =>
    simpa [next, hb] using hsum
  | some j => exact absurd (h ▸ (hs.best_some j hb).1) (notMem_empty j)

/-- A call keeps the shares and the sum of the current weights. -/
theorem next_keeps (lb : WeightedRoundRobin) :
    SameShares lb lb.next.2 ∧ lb.next.2.currentWeights.sum = lb.currentWeights.sum := by
  rcases lb.active.eq_empty_or_nonempty with h | h
  · obtain ⟨-, heps, hsum⟩ := next_none h
    exact ⟨⟨by rw [heps], fun i => by rw [heps], fun i => by rw [heps]⟩, hsum⟩
  · obtain ⟨j, -, -, -, hsame, hsum⟩ := next_spec h
    exact ⟨hsame, hsum⟩

/-! ## Calls with health unchanged -/

/-- **The calls are greedy turns.** -/
theorem calls_spec {n : Nat} {lb : WeightedRoundRobin} (h : lb.active.Nonempty) :
    ∃ js : List Nat, (calls n lb).1 = js.map some ∧ js.length = n ∧
      Greedy lb.active lb.weight lb.credit js ∧
      (calls n lb).2.credit = after lb.active lb.weight lb.credit js ∧
      SameShares lb (calls n lb).2 := by
  induction n generalizing lb with
  | zero => exact ⟨[], rfl, rfl, trivial, rfl, .refl lb⟩
  | succ n ih =>
    obtain ⟨j, hj, hrich, hcredit, hsame, -⟩ := next_spec h
    have h' : lb.next.2.active.Nonempty := by rwa [hsame.active]
    obtain ⟨js, hjs, hlen, hgreedy, hafter, hsame'⟩ := ih h'
    rw [hsame.active, hsame.weight, hcredit] at hgreedy hafter
    refine ⟨j :: js, ?_, ?_, ⟨hrich, hgreedy⟩, hafter, hsame.trans hsame'⟩
    · show lb.next.1 :: (calls n lb.next.2).1 = _
      rw [hj, hjs, List.map_cons]
    · rw [List.length_cons, hlen]

/-- Calls return healthy endpoints. -/
theorem calls_active {lb : WeightedRoundRobin} (h : lb.active.Nonempty) (n : Nat) :
    ∀ x ∈ (calls n lb).1, ∃ i ∈ lb.active, x = some i := by
  obtain ⟨js, hjs, -, hgreedy, -⟩ := @calls_spec n lb h
  intro x hx
  rw [hjs] at hx
  obtain ⟨i, hi, rfl⟩ := List.mem_map.mp hx
  exact ⟨i, hgreedy.mem hi, rfl⟩

theorem calls_add (m : Nat) : ∀ (n : Nat) (lb : WeightedRoundRobin),
    (calls (n + m) lb).2 = (calls m (calls n lb).2).2
  | 0, lb => by rw [Nat.zero_add]; rfl
  | n + 1, lb => by
    rw [Nat.add_right_comm]
    exact calls_add m n lb.next.2

/-- How often endpoint `i` is returned in `n` calls. -/
def returned (lb : WeightedRoundRobin) (n i : Nat) : Nat := (calls n lb).1.count (some i)

/-- What the call behind `n` others returns. -/
def selection (lb : WeightedRoundRobin) (n : Nat) : Option Nat := (calls n lb).2.next.1

/-- The sum of the healthy endpoints' weights. -/
def healthyWeight (lb : WeightedRoundRobin) : Nat :=
  ∑ i ∈ lb.active, (lb.endpoints.getD i {}).weight.toNat

theorem total_eq (lb : WeightedRoundRobin) : total lb.active lb.weight = lb.healthyWeight := by
  unfold total healthyWeight
  rw [Nat.cast_sum]
  rfl

theorem returned_eq {lb : WeightedRoundRobin} {n : Nat} {js : List Nat}
    (h : (calls n lb).1 = js.map some) (i : Nat) : lb.returned n i = js.count i := by
  unfold returned
  rw [h, List.count_map_of_injective _ _ (Option.some_injective Nat)]

/-! ### The same picks -/

theorem scan_congr {lb lb' : WeightedRoundRobin} (h : SameShares lb lb')
    (hc : lb'.currentWeights = lb.currentWeights) (k : Nat) : lb'.scan k = lb.scan k := by
  induction k with
  | zero => simp only [scan, hc, List.range_zero, List.foldl_nil]
  | succ k ih => simp only [scan_succ, ih, scanStep, h.healthy_eq, h.weight_eq]

/-- What a call does to the current weights, and what it returns, depend on the shares and the
current weights only. -/
theorem next_congr {lb lb' : WeightedRoundRobin} (h : SameShares lb lb')
    (hc : lb'.currentWeights = lb.currentWeights) :
    lb'.next.1 = lb.next.1 ∧ SameShares lb.next.2 lb'.next.2 ∧
      lb'.next.2.currentWeights = lb.next.2.currentWeights := by
  have hkeep := (next_keeps lb).1
  have hkeep' := (next_keeps lb').1
  have hsame : SameShares lb.next.2 lb'.next.2 :=
    ⟨hkeep'.length_eq.trans (h.length_eq.trans hkeep.length_eq.symm),
      fun i => (hkeep'.healthy_eq i).trans ((h.healthy_eq i).trans (hkeep.healthy_eq i).symm),
      fun i => (hkeep'.weight_eq i).trans ((h.weight_eq i).trans (hkeep.weight_eq i).symm)⟩
  have hscan := scan_congr h hc lb.endpoints.length
  have hnext : lb'.next.1 = lb.next.1 ∧
      lb'.next.2.currentWeights = lb.next.2.currentWeights := by
    cases hb : (lb.scan lb.endpoints.length).best with
    | none => simp only [next, h.length_eq, hscan, hb, and_self]
    | some j =>
      simp only [next, h.length_eq, hscan, hb]
      split_ifs <;> exact ⟨rfl, rfl⟩
  exact ⟨hnext.1, hsame, hnext.2⟩

theorem selection_congr {lb lb' : WeightedRoundRobin} (n : Nat) (h : SameShares lb lb')
    (hc : lb'.currentWeights = lb.currentWeights) : lb'.selection n = lb.selection n := by
  induction n generalizing lb lb' with
  | zero => exact (next_congr h hc).1
  | succ n ih =>
    obtain ⟨-, hsame, hweights⟩ := next_congr h hc
    exact ih hsame hweights

/-! ### Exact shares from a fresh balancer -/

theorem credit_new (configs : List UpstreamConfig) : (new configs).credit = fun _ => 0 := by
  funext i
  show (configs.map fun _ => (0 : Int)).getD i 0 = 0
  rw [List.getD_eq_getElem?_getD, List.getElem?_map]
  cases configs[i]? <;> rfl

theorem active_new {configs : List UpstreamConfig} (h : ∃ cfg ∈ configs, cfg.healthy = true) :
    (new configs).active.Nonempty := by
  obtain ⟨cfg, hmem, hh⟩ := h
  obtain ⟨i, hi⟩ := List.mem_iff_getElem?.mp hmem
  have hlt : i < configs.length := (List.getElem?_eq_some_iff.mp hi).1
  refine ⟨i, mem_healthyBelow.mpr ⟨?_, ?_⟩⟩
  · show i < (configs.map LbEndpoint.ofConfig).length
    rwa [List.length_map]
  · show ((configs.map LbEndpoint.ofConfig).getD i {}).healthy = true
    rw [List.getD_eq_getElem?_getD, List.getElem?_map, hi]
    exact hh

theorem weight_nonneg (lb : WeightedRoundRobin) (i : Nat) : 0 ≤ lb.weight i := Int.natCast_nonneg _

theorem currentWeights_eq_zero {lb : WeightedRoundRobin} (h : lb.credit = fun _ => 0) :
    ∀ x ∈ lb.currentWeights, x = 0 := by
  intro x hx
  obtain ⟨i, hi⟩ := List.mem_iff_getElem?.mp hx
  have h0 := congrFun h i
  unfold credit at h0
  rwa [List.getD_eq_getElem?_getD, hi] at h0

/-- The calls of a fresh balancer are greedy turns from zero credits. -/
theorem calls_new {configs : List UpstreamConfig} (h : (new configs).active.Nonempty) (n : Nat) :
    ∃ js : List Nat, (calls n (new configs)).1 = js.map some ∧ js.length = n ∧
      Greedy (new configs).active (new configs).weight (fun _ => 0) js ∧
      (calls n (new configs)).2.credit =
        after (new configs).active (new configs).weight (fun _ => 0) js := by
  obtain ⟨js, hjs, hlen, hgreedy, hafter, -⟩ := @calls_spec n (new configs) h
  rw [credit_new] at hgreedy hafter
  exact ⟨js, hjs, hlen, hgreedy, hafter⟩

/-- After a multiple of the total weight every endpoint has had its share, and every credit is 0. -/
theorem calls_multiple {configs : List UpstreamConfig} (h : (new configs).active.Nonempty)
    (k : Nat) :
    (∀ i ∈ (new configs).active,
      ((new configs).returned (k * (new configs).healthyWeight) i : ℤ) =
        k * (new configs).weight i) ∧
      (calls (k * (new configs).healthyWeight) (new configs)).2.credit = fun _ => 0 := by
  obtain ⟨js, hjs, hlen, hgreedy, hafter⟩ := calls_new h (k * (new configs).healthyWeight)
  have hlength : (js.length : ℤ) = k * total (new configs).active (new configs).weight := by
    rw [hlen, total_eq]
    push_cast
    rfl
  have hcount := fun i => @hgreedy.count_eq _ _ _ _ _ (fun i _ => weight_nonneg _ i) (total_pos h)
    k hlength i
  refine ⟨fun i hi => ?_, ?_⟩
  · rw [returned_eq hjs]
    exact (hcount i hi).1
  · rw [hafter]
    funext i
    by_cases hi : i ∈ (new configs).active
    · exact (hcount i hi).2
    · exact hgreedy.of_notMem hi

/-- Behind `W` calls the balancer has the shares and the current weights it began with. -/
theorem calls_period {configs : List UpstreamConfig} (h : (new configs).active.Nonempty) :
    SameShares (new configs) (calls (new configs).healthyWeight (new configs)).2 ∧
      (calls (new configs).healthyWeight (new configs)).2.currentWeights =
        (new configs).currentWeights := by
  obtain ⟨-, -, -, -, -, hsame⟩ := @calls_spec (new configs).healthyWeight (new configs) h
  refine ⟨hsame, ?_⟩
  have hcredit := (calls_multiple h 1).2
  rw [Nat.one_mul] at hcredit
  rw [List.eq_replicate_of_mem (currentWeights_eq_zero hcredit), length_eq, hsame.length_eq,
    ← length_eq]
  exact (List.eq_replicate_of_mem (currentWeights_eq_zero (credit_new configs))).symm

/-- **Smooth weighted round robin is exact.** -/
theorem wrr_exact (configs : List UpstreamConfig) (h : ∃ cfg ∈ configs, cfg.healthy = true) :
    let lb := new configs
    let W := lb.healthyWeight
    -- every call returns a healthy endpoint, and none more often than its share rounded up
    (∀ n, ∀ x ∈ (calls n lb).1, ∃ i ∈ lb.active, x = some i) ∧
    (∀ n, ∀ i ∈ lb.active, (lb.returned n i : ℤ) ≤ ⌈(n * lb.weight i : ℚ) / W⌉) ∧
    (∀ n, ∀ i ∉ lb.active, lb.returned n i = 0) ∧
    -- after every multiple of `W`
    (∀ k, ∀ i ∈ lb.active, (lb.returned (k * W) i : ℤ) = k * lb.weight i) ∧
    (∀ k, ∀ x ∈ (calls (k * W) lb).2.currentWeights, x = 0) ∧
    ∀ n, lb.selection (n + W) = lb.selection n := by
  intro lb W
  have hne : lb.active.Nonempty := active_new h
  have hW : 0 < total lb.active lb.weight := total_pos hne
  have hw : ∀ i ∈ lb.active, 0 ≤ lb.weight i := fun i _ => weight_nonneg lb i
  refine ⟨calls_active hne, fun n i hi => ?_, fun n i hi => ?_, fun k => (calls_multiple hne k).1,
    fun k => currentWeights_eq_zero (calls_multiple hne k).2, fun n => ?_⟩
  · obtain ⟨js, hjs, hlen, hgreedy, -⟩ := calls_new hne n
    have hlt := hgreedy.count_lt hw hW hi
    rw [hlen, total_eq] at hlt
    rw [total_eq] at hW
    have hWq : (0 : ℚ) < W := by exact_mod_cast hW
    have hltq : (W * js.count i : ℚ) < n * lb.weight i + W := by exact_mod_cast hlt
    rw [returned_eq hjs, Int.le_ceil_iff, lt_div_iff₀ hWq]
    push_cast
    linarith
  · obtain ⟨js, hjs, -, hgreedy, -⟩ := calls_new hne n
    rw [returned_eq hjs]
    exact List.count_eq_zero_of_not_mem fun hmem => hi (hgreedy.mem hmem)
  · obtain ⟨hsame, hcur⟩ := calls_period hne
    have hsplit : lb.selection (n + W) = (calls W lb).2.selection n := by
      unfold selection
      rw [Nat.add_comm, calls_add]
    rw [hsplit]
    exact selection_congr n hsame hcur

/-- The balancer of the repository's own test: weights 5, 3 and 2. -/
theorem wrr_exact_three :
    let configs : List UpstreamConfig :=
      [{ name := ascii "A", port := 1, weight := 5 }, { name := ascii "B", port := 2, weight := 3 },
        { name := ascii "C", port := 3, weight := 2 }]
    (∃ cfg ∈ configs, cfg.healthy = true) ∧ (new configs).healthyWeight = 10 ∧
      (new configs).returned (7 * 10) 1 = 21 ∧ (new configs).selection 10 = some 0 := by
  intro configs
  have h : ∃ cfg ∈ configs, cfg.healthy = true := by decide
  have hW : (new configs).healthyWeight = 10 := by decide +kernel
  obtain ⟨-, -, -, hshare, -, hperiod⟩ := wrr_exact configs h
  rw [hW] at hshare hperiod
  refine ⟨h, hW, ?_, (hperiod 0).trans (by decide +kernel)⟩
  have h21 := hshare 7 1 (by decide +kernel)
  rw [show (new configs).weight 1 = 3 by decide +kernel] at h21
  exact_mod_cast h21

example : (calls 10 (new [{ name := ascii "A", weight := 5 }, { name := ascii "B", weight := 3 },
    { name := ascii "C", weight := 2 }])).1 = [0, 1, 2, 0, 0, 1, 0, 2, 1, 0].map some := by
  decide +kernel

theorem weight_lt (lb : WeightedRoundRobin) (i : Nat) : lb.weight i < 2 ^ 32 := by
  unfold weight
  exact_mod_cast UInt32.toNat_lt (lb.endpoints.getD i {}).weight

theorem card_active_le (lb : WeightedRoundRobin) : lb.active.card ≤ lb.endpoints.length := by
  have := card_filter_le (range lb.endpoints.length) fun i =>
    (lb.endpoints.getD i {}).healthy = true
  rwa [card_range] at this

theorem total_le (lb : WeightedRoundRobin) :
    total lb.active lb.weight ≤ lb.active.card * 2 ^ 32 := by
  have := sum_le_card_nsmul lb.active lb.weight (2 ^ 32) fun i _ => le_of_lt (lb.weight_lt i)
  rwa [nsmul_eq_mul] at this

/-- **No addition overflows**: from a fresh balancer with at most `2 ^ 15` endpoints, every value
the loop of every call computes is an `int64_t`. -/
theorem next_fits (configs : List UpstreamConfig) (h : ∃ cfg ∈ configs, cfg.healthy = true)
    (hlen : configs.length ≤ 2 ^ 15) (n k : Nat) (hk : k ≤ configs.length) :
    let s := (calls n (new configs)).2.scan k
    (∀ i, |s.weights.getD i 0| < 2 ^ 63) ∧ |s.total| < 2 ^ 63 := by
  intro s
  set lb := new configs with hlb
  have hne : lb.active.Nonempty := active_new h
  obtain ⟨-, -, -, -, -, hsame⟩ := @calls_spec n lb hne
  obtain ⟨js, -, -, hgreedy, hafter⟩ := calls_new hne n
  have heps : lb.endpoints.length = configs.length := List.length_map _
  have hspec : ScanSpec (calls n lb).2 k s :=
    (calls n lb).2.scan_spec (by rw [hsame.length_eq, heps]; exact hk)
  have hcard : (lb.active.card : ℤ) ≤ 2 ^ 15 := by
    exact_mod_cast (lb.card_active_le.trans (Nat.le_of_eq heps)).trans hlen
  have hW := total_pos hne
  have hW47 : total lb.active lb.weight ≤ 2 ^ 47 := by linarith [lb.total_le]
  have hcredit : ∀ i, |(calls n lb).2.credit i| ≤ 2 ^ 62 := fun i => by
    have habs := hgreedy.abs_le_card_mul (fun i _ => weight_nonneg lb i) hW i
    rw [hafter]
    nlinarith
  constructor
  · intro i
    have hc := abs_le.mp (hcredit i)
    have hwt := lb.weight_lt i
    have hnn := weight_nonneg lb i
    rw [hspec.weights_eq, hsame.weight, abs_lt]
    split_ifs <;> constructor <;> linarith
  · have hsub : (calls n lb).2.healthyBelow k ⊆ lb.active := by
      intro i hi
      rw [← hsame.active]
      obtain ⟨hik, hh⟩ := mem_healthyBelow.mp hi
      refine mem_healthyBelow.mpr ⟨?_, hh⟩
      rw [hsame.length_eq, heps]
      omega
    have hle : total ((calls n lb).2.healthyBelow k) lb.weight ≤ total lb.active lb.weight :=
      sum_le_sum_of_subset_of_nonneg hsub fun i _ _ => weight_nonneg lb i
    have hge : 0 ≤ total ((calls n lb).2.healthyBelow k) lb.weight :=
      sum_nonneg fun i _ => weight_nonneg lb i
    rw [hspec.total_eq, hsame.weight, abs_lt]
    constructor <;> linarith

/-! ## Any history -/

/-- The calls of a run. -/
inductive Op where
  | next
  | markHealthy (name : Bytes)
  | markUnhealthy (name : Bytes)
  deriving DecidableEq, Repr

def step (lb : WeightedRoundRobin) : Op → WeightedRoundRobin
  | .next => lb.next.2
  | .markHealthy name => lb.markHealthy name
  | .markUnhealthy name => lb.markUnhealthy name

theorem step_sum (lb : WeightedRoundRobin) (op : Op) :
    (lb.step op).currentWeights.sum = lb.currentWeights.sum := by
  cases op with
  | next => exact (next_keeps lb).2
  | markHealthy name => rfl
  | markUnhealthy name => rfl

/-- **Load balancing recovers after any history**: the current weights add up to 0, and while health
does not change again only healthy endpoints are returned, each within a fixed distance of its
share. -/
theorem wrr_recovers (configs : List UpstreamConfig) (ops : List Op) :
    let lb := run step (new configs) ops
    lb.currentWeights.sum = 0 ∧
      (lb.active.Nonempty → ∃ B : ℤ, ∀ n,
        (∀ x ∈ (calls n lb).1, ∃ i ∈ lb.active, x = some i) ∧
        ∀ i ∈ lb.active, |lb.healthyWeight * lb.returned n i - n * lb.weight i| ≤ B) := by
  intro lb
  have hnew : (new configs).currentWeights.sum = 0 :=
    List.sum_eq_zero fun x hx => currentWeights_eq_zero (credit_new configs) x hx
  refine ⟨?_, fun hne => ⟨Greedy.driftBound lb.active lb.weight lb.credit, fun n => ?_⟩⟩
  · exact run_inv (P := fun lb => lb.currentWeights.sum = 0)
      (fun lb op h => (step_sum lb op).trans h) ops hnew
  · obtain ⟨js, hjs, hlen, hgreedy, -⟩ := @calls_spec n lb hne
    refine ⟨calls_active hne n, fun i hi => ?_⟩
    have hdrift := hgreedy.drift (fun i _ => weight_nonneg lb i) (total_pos hne) hi
    rwa [hlen, total_eq, ← returned_eq hjs] at hdrift

end WeightedRoundRobin

end Uproxy
