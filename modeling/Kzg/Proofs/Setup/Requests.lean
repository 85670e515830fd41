import Kzg.Proofs.Domain.Interpolation
import Kzg.Proofs.Group.Exponent
import Kzg.Proofs.Setup.Trusted

/-! # Requests to a setup that holds its secret

What a setup keeps depends on the requests that it has had only through the longest vector of each
group and the domains that were asked for. So no answer tells how often the setup has been asked
before, and a request that fails leaves no less than one that succeeds. -/

namespace Kzg

open Finset (range)
open PointGroup (generator)
open SetupM (Responds)

namespace TrustedSetup

/-- What a setup can be asked for. -/
inductive Request
  | g1Powers (length : Nat)
  | g2Powers (length : Nat)
  | lagrange (domain : Domain) (built : domain.Built)
  | g2Tau
  | publish (g1Length g2Length : Nat)

inductive Response (G1 G2 : Type) [PointGroup G1] [PointGroup G2]
  | g1Vector (vector : List G1)
  | g2Vector (vector : List G2)
  | g2Point (point : G2)
  | published (setup : PublicSetup G1 G2)

section Vectors

variable {G : Type} [PointGroup G]

/-- The multiples by the powers of the secret below `length`. -/
def powersOf (secret : Fr) (length : Nat) : List G :=
  (List.range length).map fun i => secret ^ i • generator

theorem powerVector_eq_powersOf (secret : Fr) (length : Nat) :
    (powerVector secret length : List G) = powersOf secret length := by
  rw [powerVector, generatorMultiples, Fr.powers_eq_map, List.map_map]
  rfl

/-- The multiples by the values at the secret of Lagrange's polynomials for the powers of `root`. -/
noncomputable def lagrangeVector (secret : Fr) (size : Nat) (root : Fr) : List G :=
  (List.range size).map fun i =>
    (Lagrange.basis (range size) (fun j => root ^ j) i).eval secret • generator

theorem generatorMultiples_lagrangeAt {d : Domain} (hd : d.Built) (secret : Fr) :
    (generatorMultiples (d.lagrangeAt secret) : List G) =
      lagrangeVector secret d.size d.generator := by
  rw [hd.lagrangeAt_eq_map_basis, generatorMultiples, List.map_map]
  rfl

end Vectors

variable {G1 G2 : Type} [PointGroup G1] [PointGroup G2]

namespace Request

def perform : Request → SetupM (TrustedSetup G1 G2) (Response G1 G2)
  | g1Powers length => do return .g1Vector (← TrustedSetup.g1Powers length)
  | g2Powers length => do return .g2Vector (← TrustedSetup.g2Powers length)
  | lagrange domain _ => do return .g1Vector (← TrustedSetup.lagrange domain)
  | g2Tau => do return .g2Point (← TrustedSetup.g2Tau)
  | publish g1Length g2Length => do return .published (← TrustedSetup.publish g1Length g2Length)

/-- The answer under a secret, without a setup. -/
noncomputable def answer (secret : Fr) : Request → Except KzgError (Response G1 G2)
  | g1Powers length => .ok (.g1Vector (powersOf secret length))
  | g2Powers length => .ok (.g2Vector (powersOf secret length))
  | lagrange domain _ => .ok (.g1Vector (lagrangeVector secret domain.size domain.generator))
  | g2Tau => .ok (.g2Point (secret • generator))
  | publish g1Length g2Length =>
    (PublicSetup.ofVectors (powersOf secret g1Length) (powersOf secret (max g2Length 2))).map
      .published

theorem responds_perform (secret : Fr) (request : Request) :
    Responds (Reached secret : TrustedSetup G1 G2 → Prop) request.perform
      (request.answer secret) := by
  cases request with
  | g1Powers length =>
    rw [answer, ← powerVector_eq_powersOf]
    exact (responds_g1Powers secret length).map _
  | g2Powers length =>
    rw [answer, ← powerVector_eq_powersOf]
    exact (responds_g2Powers secret length).map _
  | lagrange domain built =>
    rw [answer, ← generatorMultiples_lagrangeAt built]
    exact (responds_lagrange secret built).map _
  | g2Tau =>
    have hEntry : (powerVector secret 2 : List G2).getD 1 0 = secret • generator := by
      rw [powerVector_eq_powersOf]
      simp [powersOf]
    rw [answer, ← hEntry]
    exact ((responds_g2Powers secret 2).map fun vector => vector.getD 1 0).map _
  | publish g1Length g2Length =>
    rw [answer, ← powerVector_eq_powersOf, ← powerVector_eq_powersOf]
    exact (responds_publish secret g1Length g2Length).map _

/-- The number of powers of the first group that a request needs. -/
def g1Length : Request → Nat
  | g1Powers length => length
  | publish g1Length _ => g1Length
  | _ => 0

/-- The number of powers of the second group that a request needs. -/
def g2Length : Request → Nat
  | g2Powers length => length
  | g2Tau => 2
  | publish _ g2Length => max g2Length 2
  | _ => 0

/-- The Lagrange vector that a request needs, under its key. -/
def lagrangeEntries (secret : Fr) : Request → List ((Nat × Fr) × List G1)
  | lagrange domain _ =>
    [((domain.size, domain.generator), generatorMultiples (domain.lagrangeAt secret))]
  | _ => []

theorem mem_lagrangeEntries_iff {secret : Fr} {request : Request} {key : Nat × Fr}
    {vector : List G1} :
    (key, vector) ∈ request.lagrangeEntries secret ↔
      (∃ domain built, request = .lagrange domain built ∧
        key = (domain.size, domain.generator)) ∧ vector = lagrangeVector secret key.1 key.2 := by
  constructor
  · intro h
    cases request with
    | lagrange domain built =>
      cases List.mem_singleton.mp h
      exact ⟨⟨domain, built, rfl, rfl⟩, generatorMultiples_lagrangeAt built secret⟩
    | g1Powers _ => cases h
    | g2Powers _ => cases h
    | g2Tau => cases h
    | publish _ _ => cases h
  · rintro ⟨⟨domain, built, rfl, rfl⟩, rfl⟩
    rw [lagrangeEntries, generatorMultiples_lagrangeAt built]
    exact List.mem_singleton_self _

end Request

/-- The answers to requests one after the other, with the setup that they lead to. -/
def serve (requests : List Request) :
    StateM (TrustedSetup G1 G2) (List (Except KzgError (Response G1 G2))) :=
  requests.mapM fun request => request.perform.run

theorem serve_cons (request : Request) (requests : List Request) (s : TrustedSetup G1 G2) :
    (serve (request :: requests)).run s =
      let (answer, s') := request.perform.run.run s
      let (answers, s'') := (serve requests).run s'
      (answer :: answers, s'') := by
  rw [serve, List.mapM_cons]
  rfl

theorem Reached.serve {secret : Fr} {s : TrustedSetup G1 G2} (hs : Reached secret s)
    (requests : List Request) :
    ∃ s', (serve requests).run s = (requests.map (Request.answer secret), s') ∧
      Reached secret s' := by
  induction requests generalizing s with
  | nil => exact ⟨s, rfl, hs⟩
  | cons request requests ih =>
    obtain ⟨s', hRun, hs'⟩ := request.responds_perform secret s hs
    obtain ⟨s'', hRest, hs''⟩ := ih hs'
    refine ⟨s'', ?_, hs''⟩
    rw [serve_cons, hRun]
    simp only [hRest, List.map_cons]

section Kept

/-- What a request adds to a setup: the powers and the vector that it needs and that are missing. -/
structure Grows (request : Request) (s s' : TrustedSetup G1 G2) : Prop where
  secret_eq : s'.secret = s.secret
  g1_eq : s'.g1 = extendPowers s.secret s.g1 request.g1Length
  g2_eq : s'.g2 = extendPowers s.secret s.g2 request.g2Length
  lookup_eq (key : Nat × Fr) : s'.lagrangeVectors.lookup key =
    (s.lagrangeVectors.lookup key).or ((request.lagrangeEntries s.secret).lookup key)

theorem extendPowers_zero {G : Type} [PointGroup G] (secret : Fr) (known : List G) :
    extendPowers secret known 0 = known := by
  rw [extendPowers, Nat.zero_sub]
  exact List.append_nil known

theorem run_publish (g1Length g2Length : Nat) (s : TrustedSetup G1 G2) :
    ((publish g1Length g2Length : SetupM _ (PublicSetup G1 G2)).run.run s).2 =
      { s with
        g1 := extendPowers s.secret s.g1 g1Length
        g2 := extendPowers s.secret s.g2 (max g2Length 2) } :=
  congrArg Prod.snd (SetupM.run_lift _ _)

/-- A vector that is found stays the one found, and only a missing one is added. -/
theorem grows_lagrange {domain : Domain} (built : domain.Built) (s : TrustedSetup G1 G2) :
    Grows (.lagrange domain built) s
      ((TrustedSetup.lagrange domain : SetupM _ (List G1)).run.run s).2 := by
  have hG1 := (extendPowers_zero s.secret s.g1).symm
  have hG2 := (extendPowers_zero s.secret s.g2).symm
  rw [run_lagrange]
  split
  · rename_i vector hLookup
    refine ⟨rfl, hG1, hG2, ?_⟩
    intro key
    cases hKey : key == (domain.size, domain.generator) with
    | true => rw [beq_iff_eq.mp hKey, hLookup, Option.some_or]
    | false => simp only [Request.lagrangeEntries, List.lookup_cons, hKey, List.lookup_nil,
        Option.or_none]
  · rename_i hLookup
    refine ⟨rfl, hG1, hG2, ?_⟩
    intro key
    simp only [Request.lagrangeEntries, List.lookup_cons, List.lookup_nil]
    cases hKey : key == (domain.size, domain.generator) with
    | true => rw [beq_iff_eq.mp hKey, hLookup, Option.none_or]
    | false => rw [Option.or_none]

/-- A request that fails adds what it has computed before. -/
theorem grows_perform (request : Request) (s : TrustedSetup G1 G2) :
    Grows request s (request.perform.run.run s).2 := by
  have hG1 := (extendPowers_zero s.secret s.g1).symm
  have hG2 := (extendPowers_zero s.secret s.g2).symm
  cases request with
  | g1Powers length => exact ⟨rfl, rfl, hG2, fun _ => (Option.or_none ..).symm⟩
  | g2Powers length => exact ⟨rfl, hG1, rfl, fun _ => (Option.or_none ..).symm⟩
  | lagrange domain built =>
    rw [Request.perform, SetupM.run_map_snd]
    exact grows_lagrange built s
  | g2Tau => exact ⟨rfl, hG1, rfl, fun _ => (Option.or_none ..).symm⟩
  | publish g1Length g2Length =>
    rw [Request.perform, SetupM.run_map_snd, run_publish]
    exact ⟨rfl, rfl, rfl, fun _ => (Option.or_none ..).symm⟩

end Kept

section Monotone

/-- What the first setup has kept the second one keeps, each entry at its place. -/
structure Keeps (s s' : TrustedSetup G1 G2) : Prop where
  g1 : s.g1 <+: s'.g1
  g2 : s.g2 <+: s'.g2
  lagrange {key : Nat × Fr} {vector : List G1} : s.lagrangeVectors.lookup key = some vector →
    s'.lagrangeVectors.lookup key = some vector

theorem Grows.keeps {request : Request} {s s' : TrustedSetup G1 G2} (h : Grows request s s') :
    Keeps s s' where
  g1 := h.g1_eq ▸ List.prefix_append _ _
  g2 := h.g2_eq ▸ List.prefix_append _ _
  lagrange hLookup := by rw [h.lookup_eq, hLookup, Option.some_or]

theorem keeps_serve (requests : List Request) (s : TrustedSetup G1 G2) :
    Keeps s ((serve requests).run s).2 := by
  induction requests generalizing s with
  | nil => exact ⟨List.prefix_rfl, List.prefix_rfl, id⟩
  | cons request requests ih =>
    have hFirst := (grows_perform request s).keeps
    have hRest := ih (request.perform.run.run s).2
    rw [serve_cons]
    exact ⟨hFirst.g1.trans hRest.g1, hFirst.g2.trans hRest.g2,
      fun hLookup => hRest.lagrange (hFirst.lagrange hLookup)⟩

end Monotone

section Contents

def longest (length : Request → Nat) (requests : List Request) : Nat :=
  (requests.map length).foldl max 0

theorem longest_append (length : Request → Nat) (requests : List Request) (request : Request) :
    longest length (requests ++ [request]) = max (longest length requests) (length request) := by
  rw [longest, List.map_append, List.foldl_append]
  rfl

/-- What a setup has kept after the given requests. -/
structure Holds (secret : Fr) (requests : List Request) (s : TrustedSetup G1 G2) : Prop where
  secret_eq : s.secret = secret
  g1_eq : s.g1 = powerVector secret (longest Request.g1Length requests)
  g2_eq : s.g2 = powerVector secret (longest Request.g2Length requests)
  lookup_eq (key : Nat × Fr) : s.lagrangeVectors.lookup key =
    (requests.flatMap (Request.lagrangeEntries secret)).lookup key

namespace Holds

variable {secret : Fr} {s : TrustedSetup G1 G2}

theorem of_fresh (h : ofSecret secret = .ok s) : Holds secret [] s := by
  rw [ofSecret] at h
  split at h
  · cases h
  · cases h
    exact ⟨rfl, rfl, rfl, fun _ => rfl⟩

theorem grows {past : List Request} (h : Holds secret past s) {request : Request}
    {s' : TrustedSetup G1 G2} (hGrows : Grows request s s') :
    Holds secret (past ++ [request]) s' where
  secret_eq := hGrows.secret_eq.trans h.secret_eq
  g1_eq := by
    rw [hGrows.g1_eq, h.secret_eq, h.g1_eq, extendPowers_powerVector, longest_append,
      add_tsub_eq_max]
  g2_eq := by
    rw [hGrows.g2_eq, h.secret_eq, h.g2_eq, extendPowers_powerVector, longest_append,
      add_tsub_eq_max]
  lookup_eq key := by
    rw [hGrows.lookup_eq, h.secret_eq, h.lookup_eq, List.flatMap_append, List.lookup_append,
      List.flatMap_singleton]

theorem serve {past : List Request} (h : Holds secret past s) (requests : List Request) :
    Holds secret (past ++ requests) ((TrustedSetup.serve requests).run s).2 := by
  induction requests generalizing past s with
  | nil =>
    rw [List.append_nil]
    exact h
  | cons request requests ih =>
    rw [serve_cons, List.append_cons]
    exact ih (h.grows (grows_perform request s))

/-- A vector is kept for each domain that was asked for, and it is the one of its key. -/
theorem lookup_eq_some_iff {requests : List Request} (h : Holds secret requests s)
    (key : Nat × Fr) (vector : List G1) :
    s.lagrangeVectors.lookup key = some vector ↔
      (∃ domain built, Request.lagrange domain built ∈ requests ∧
        key = (domain.size, domain.generator)) ∧ vector = lagrangeVector secret key.1 key.2 := by
  have hMem (vector : List G1) :
      (key, vector) ∈ requests.flatMap (Request.lagrangeEntries secret) ↔
        (∃ domain built, Request.lagrange domain built ∈ requests ∧
          key = (domain.size, domain.generator)) ∧ vector = lagrangeVector secret key.1 key.2 := by
    simp only [List.mem_flatMap, Request.mem_lagrangeEntries_iff]
    constructor
    · rintro ⟨request, hRequest, ⟨domain, built, rfl, hKey⟩, hVector⟩
      exact ⟨⟨domain, built, hRequest, hKey⟩, hVector⟩
    · rintro ⟨⟨domain, built, hRequest, hKey⟩, hVector⟩
      exact ⟨_, hRequest, ⟨domain, built, rfl, hKey⟩, hVector⟩
  have hLookup (vector : List G1)
      (hSome : (requests.flatMap (Request.lagrangeEntries secret)).lookup key = some vector) :
      (key, vector) ∈ requests.flatMap (Request.lagrangeEntries secret) := by
    obtain ⟨before, after, hList, -⟩ := List.lookup_eq_some_iff.mp hSome
    rw [hList]
    exact List.mem_append_right before List.mem_cons_self
  rw [h.lookup_eq]
  constructor
  · intro hSome
    exact (hMem vector).mp (hLookup vector hSome)
  · intro hKey
    -- Some vector is found under the key, and all that are kept under it are the same.
    have hFound := List.lookup_isSome_iff.mpr
      ⟨_, (hMem vector).mpr hKey, (beq_self_eq_true key)⟩
    obtain ⟨vector', hSome⟩ := Option.isSome_iff_exists.mp hFound
    rw [hSome, ((hMem vector').mp (hLookup vector' hSome)).2, hKey.2]

end Holds

end Contents

variable (G1 G2) in
/-- However often a setup has been asked, every request has the answer that a fresh one gives, and
what is kept is the longest vector of each group that was needed and the vectors of the domains that
were asked for. Later requests only add to it. -/
theorem cache_invisible {secret : Fr} (hSecret : secret ≠ 0) :
    ∃ fresh : TrustedSetup G1 G2, ofSecret secret = .ok fresh ∧
      (∀ request : Request, (request.perform.run.run fresh).1 = request.answer secret) ∧
      ∀ requests : List Request, ∃ s,
        (serve requests).run fresh =
          (requests.map fun request => (request.perform.run.run fresh).1, s) ∧
        s.g1 = powersOf secret (longest Request.g1Length requests) ∧
        s.g2 = powersOf secret (longest Request.g2Length requests) ∧
        (∀ key vector, s.lagrangeVectors.lookup key = some vector ↔
          (∃ domain built, Request.lagrange domain built ∈ requests ∧
            key = (domain.size, domain.generator)) ∧
          vector = lagrangeVector secret key.1 key.2) ∧
        ∀ later : List Request, Keeps s ((serve later).run s).2 := by
  obtain ⟨fresh, hFresh⟩ : ∃ fresh : TrustedSetup G1 G2, ofSecret secret = .ok fresh :=
    ⟨_, dif_neg hSecret⟩
  have hAnswer (request : Request) :
      (request.perform.run.run fresh).1 = request.answer secret := by
    obtain ⟨s, hRun, -⟩ := request.responds_perform secret fresh (.fresh hFresh)
    rw [hRun]
  refine ⟨fresh, hFresh, hAnswer, ?_⟩
  intro requests
  obtain ⟨s, hRun, -⟩ := (Reached.fresh hFresh).serve requests
  have hHolds := (Holds.of_fresh hFresh).serve requests
  rw [hRun, List.nil_append] at hHolds
  refine ⟨s, ?_, ?_, ?_, hHolds.lookup_eq_some_iff, fun later => keeps_serve later s⟩
  · simp only [hRun, hAnswer]
  · rw [hHolds.g1_eq, powerVector_eq_powersOf]
  · rw [hHolds.g2_eq, powerVector_eq_powersOf]

/-- Three powers are kept when one is asked for afterwards, and publishing no powers of the first
group fails only after those of the second one are computed. -/
theorem cache_invisible_exponent :
    (5 : Fr) ≠ 0 ∧ ∃ fresh s : TrustedSetup (Exponent "G1") (Exponent "G2"),
      (serve [.g1Powers 3, .g1Powers 1, .publish 0 1, .g2Tau]).run fresh =
        ([.ok (.g1Vector [.valid 1, .valid 5, .valid 25]), .ok (.g1Vector [.valid 1]),
          .error .emptySetup, .ok (.g2Point (.valid 5))], s) ∧
      s.g1 = [.valid 1, .valid 5, .valid 25] ∧ s.g2 = [.valid 1, .valid 5] := by
  have hSecret : (5 : Fr) ≠ 0 := by decide
  obtain ⟨fresh, -, hAnswer, hRequests⟩ :=
    cache_invisible (Exponent "G1") (Exponent "G2") hSecret
  obtain ⟨s, hRun, hG1, hG2, -⟩ := hRequests [.g1Powers 3, .g1Powers 1, .publish 0 1, .g2Tau]
  have hThree : (powersOf 5 3 : List (Exponent "G1")) = [.valid 1, .valid 5, .valid 25] := by
    decide +kernel
  have hOne : (powersOf 5 1 : List (Exponent "G1")) = [.valid 1] := by decide +kernel
  have hTau : (5 : Fr) • (generator : Exponent "G2") = .valid 5 := by decide +kernel
  refine ⟨hSecret, fresh, s, ?_, hG1.trans hThree, ?_⟩
  · simp only [hRun, hAnswer, List.map_cons, List.map_nil, Request.answer, hThree, hOne, hTau]
    rfl
  · rw [hG2]
    decide +kernel

end TrustedSetup

end Kzg
