import Mathlib.Data.List.Prime
import Mathlib.Data.ZMod.Basic
import Mathlib.NumberTheory.LucasPrimality
import Mathlib.Tactic.NormNum.Prime
import Mathlib.Tactic.Ring
import StackCircuit.Scalar

/-!
# Residues as a field

The arithmetic of residues is that of the integers modulo `p`.

* `Scalar.toZMod`: the residue as an integer modulo `p`, with one lemma for each operation.
* **`Scalar.instCommRing`**: the residues form a commutative ring, for every modulus.
* `Scalar.eq_zero_of_sub_mul_eq_zero`: where the modulus is prime, a product vanishes only with a factor.
* `powMod`, `isPrimitive`: a test for primitive roots; `prime_of_isPrimitive`: a number that passes it
  is prime.
* `isCertified`: the test of a table of numbers, each with its root; `prime_of_isCertified`.
* **`ScalarField.modulus_prime`**: the orders of the supported fields are prime.
-/

namespace StackCircuit

namespace Scalar

variable {p : ℕ}

theorem ext_val {x y : Scalar p} (h : x.val = y.val) : x = y := by
  cases x; cases y; cases h; rfl

/-- The residue as an integer modulo `p`. -/
def toZMod (x : Scalar p) : ZMod p := (x.val : ZMod p)

theorem toZMod_injective : Function.Injective (toZMod (p := p)) := by
  intro x y h
  have h' := (ZMod.natCast_eq_natCast_iff' x.val y.val p).mp h
  rw [Nat.mod_eq_of_lt x.isLt, Nat.mod_eq_of_lt y.isLt] at h'
  exact ext_val h'

theorem toZMod_add (x y : Scalar p) : (x + y).toZMod = x.toZMod + y.toZMod := by
  change (((x.val + y.val) % p : ℕ) : ZMod p) = _
  rw [ZMod.natCast_mod, Nat.cast_add]
  rfl

theorem toZMod_mul (x y : Scalar p) : (x * y).toZMod = x.toZMod * y.toZMod := by
  change ((x.val * y.val % p : ℕ) : ZMod p) = _
  rw [ZMod.natCast_mod, Nat.cast_mul]
  rfl

theorem toZMod_neg (x : Scalar p) : (-x).toZMod = -x.toZMod := by
  change (((p - x.val) % p : ℕ) : ZMod p) = _
  rw [ZMod.natCast_mod, Nat.cast_sub x.isLt.le, ZMod.natCast_self, zero_sub]
  rfl

theorem toZMod_sub (x y : Scalar p) : (x - y).toZMod = x.toZMod - y.toZMod := by
  change (((x.val + (p - y.val)) % p : ℕ) : ZMod p) = _
  rw [ZMod.natCast_mod, Nat.cast_add, Nat.cast_sub y.isLt.le, ZMod.natCast_self, zero_sub,
    ← sub_eq_add_neg]
  rfl

variable [Modulus p]

theorem toZMod_ofNat (n : ℕ) : (ofNat n : Scalar p).toZMod = n :=
  ZMod.natCast_mod n p

theorem toZMod_zero : (0 : Scalar p).toZMod = 0 :=
  (toZMod_ofNat 0).trans Nat.cast_zero

theorem toZMod_one : (1 : Scalar p).toZMod = 1 :=
  (toZMod_ofNat 1).trans Nat.cast_one

/-- **The residues form a commutative ring.** -/
instance instCommRing : CommRing (Scalar p) where
  add := (· + ·)
  zero := 0
  mul := (· * ·)
  one := 1
  neg := (- ·)
  sub := (· - ·)
  nsmul := nsmulRec
  zsmul := zsmulRec
  add_assoc x y z := toZMod_injective (by simp only [toZMod_add]; ring)
  zero_add x := toZMod_injective (by rw [toZMod_add, toZMod_zero, zero_add])
  add_zero x := toZMod_injective (by rw [toZMod_add, toZMod_zero, add_zero])
  add_comm x y := toZMod_injective (by rw [toZMod_add, toZMod_add, add_comm])
  mul_assoc x y z := toZMod_injective (by simp only [toZMod_mul]; ring)
  one_mul x := toZMod_injective (by rw [toZMod_mul, toZMod_one, one_mul])
  mul_one x := toZMod_injective (by rw [toZMod_mul, toZMod_one, mul_one])
  mul_comm x y := toZMod_injective (by rw [toZMod_mul, toZMod_mul, mul_comm])
  zero_mul x := toZMod_injective (by rw [toZMod_mul, toZMod_zero, zero_mul])
  mul_zero x := toZMod_injective (by rw [toZMod_mul, toZMod_zero, mul_zero])
  left_distrib x y z := toZMod_injective (by simp only [toZMod_mul, toZMod_add]; ring)
  right_distrib x y z := toZMod_injective (by simp only [toZMod_mul, toZMod_add]; ring)
  neg_add_cancel x := toZMod_injective (by rw [toZMod_add, toZMod_neg, toZMod_zero, neg_add_cancel])
  sub_eq_add_neg x y := toZMod_injective (by rw [toZMod_sub, toZMod_add, toZMod_neg, sub_eq_add_neg])

/-- **Residues modulo a prime have no zero divisors**: if a multiple of a difference vanishes, the
factor does or there is no difference. -/
theorem eq_zero_of_sub_mul_eq_zero [Fact p.Prime] {x y z : Scalar p} (h : (x - y) * z = 0)
    (hne : x ≠ y) : z = 0 := by
  have h' := congrArg toZMod h
  rw [toZMod_mul, toZMod_sub, toZMod_zero, mul_eq_zero, sub_eq_zero] at h'
  rcases h' with h' | h'
  · exact absurd (toZMod_injective h') hne
  · exact toZMod_injective (h'.trans toZMod_zero.symm)

end Scalar

/-! ## The orders of the supported fields -/

/-- The residue of `a ^ n` modulo `m`, by squaring, where `n` has at most `digits` binary digits. -/
def powMod (m : ℕ) : (digits a n : ℕ) → ℕ
  | 0, _, _ => 1 % m
  | digits + 1, a, n => (if n % 2 = 1 then a else 1) * powMod m digits (a * a % m) (n / 2) % m

theorem powMod_eq_pow (m : ℕ) {digits a n : ℕ} (h : n < 2 ^ digits) :
    (powMod m digits a n : ZMod m) = (a : ZMod m) ^ n := by
  induction digits generalizing a n with
  | zero =>
    obtain rfl : n = 0 := by omega
    rw [powMod, ZMod.natCast_mod, Nat.cast_one, pow_zero]
  | succ digits ih =>
    have hn : n / 2 < 2 ^ digits := by rw [pow_succ] at h; omega
    rw [powMod, ZMod.natCast_mod, Nat.cast_mul, ih hn, ZMod.natCast_mod, Nat.cast_mul, ← sq,
      ← pow_mul]
    conv_rhs => rw [← Nat.mod_add_div n 2, pow_add]
    rcases Nat.mod_two_eq_zero_or_one n with h0 | h1
    · rw [if_neg (by omega), h0, Nat.cast_one, pow_zero]
    · rw [if_pos h1, h1, pow_one]

/-- Whether `a` has order `p - 1` modulo `p`, given the primes that `p - 1` is made of. -/
def isPrimitive (p digits a : ℕ) (primes : List ℕ) : Bool :=
  1 < p && p ≤ 2 ^ digits && primes.prod ^ digits % (p - 1) == 0 &&
    powMod p digits a (p - 1) % p == 1 &&
    primes.all fun q => powMod p digits a ((p - 1) / q) % p != 1

theorem natCast_eq_one_iff {p : ℕ} (hp : 1 < p) (n : ℕ) : (n : ZMod p) = 1 ↔ n % p = 1 := by
  rw [← Nat.cast_one, ZMod.natCast_eq_natCast_iff', Nat.mod_eq_of_lt hp]

/-- **A number with a primitive root is prime.** -/
theorem prime_of_isPrimitive {p : ℕ} (digits a : ℕ) (primes : List ℕ)
    (hprimes : ∀ q ∈ primes, q.Prime) (h : isPrimitive p digits a primes = true) : p.Prime := by
  simp only [isPrimitive, Bool.and_eq_true, decide_eq_true_eq, beq_iff_eq, List.all_eq_true,
    bne_iff_ne, ne_eq] at h
  obtain ⟨⟨⟨⟨hp, hd⟩, hprod⟩, hone⟩, hne⟩ := h
  refine lucas_primality p (a : ZMod p) ?_ fun q hq hqp => ?_
  · rw [← powMod_eq_pow p (by omega : p - 1 < 2 ^ digits), natCast_eq_one_iff hp]
    exact hone
  · have hq' : q ∣ primes.prod :=
      hq.dvd_of_dvd_pow (hqp.trans (Nat.dvd_of_mod_eq_zero hprod))
    obtain ⟨r, hr, hqr⟩ := (Prime.dvd_prod_iff hq.prime).mp hq'
    obtain rfl : q = r := (Nat.prime_dvd_prime_iff_eq hq (hprimes r hr)).mp hqr
    have hlt : (p - 1) / q < 2 ^ digits := by
      have := Nat.div_le_self (p - 1) q
      omega
    rw [← powMod_eq_pow p hlt, ne_eq, natCast_eq_one_iff hp]
    exact hne q hr

/-- The small primes that divide the numbers below. -/
def smallPrimes : List ℕ :=
  [2, 3, 5, 7, 11, 13, 29, 83, 107, 167, 229, 379, 499, 661, 823, 853, 983, 1637, 3691, 4999,
    11003, 93001, 126397, 237073, 1593227]

theorem prime_of_mem_smallPrimes : ∀ q ∈ smallPrimes, q.Prime := by
  simp only [smallPrimes, List.forall_mem_cons]
  norm_num

/-- Whether each number of the table, given with a root and the primes one less than it is made of,
has that root as a primitive root, where the primes are small or stand further down. -/
def isCertified : List (ℕ × ℕ × List ℕ) → Bool
  | [] => true
  | (p, a, primes) :: rest =>
    isPrimitive p 256 a primes &&
      primes.all (fun q => smallPrimes.contains q || (rest.map Prod.fst).contains q) &&
      isCertified rest

theorem prime_of_isCertified {table : List (ℕ × ℕ × List ℕ)} (h : isCertified table = true) :
    ∀ p ∈ table.map Prod.fst, p.Prime := by
  induction table with
  | nil => simp
  | cons entry rest ih =>
    obtain ⟨p, a, primes⟩ := entry
    rw [isCertified, Bool.and_eq_true, Bool.and_eq_true, List.all_eq_true] at h
    obtain ⟨⟨hroot, hprimes⟩, hrest⟩ := h
    have hdivisors : ∀ q ∈ primes, q.Prime := by
      intro q hq
      have hknown := hprimes q hq
      rw [Bool.or_eq_true, List.contains_iff_mem, List.contains_iff_mem] at hknown
      rcases hknown with hsmall | hlater
      · exact prime_of_mem_smallPrimes q hsmall
      · exact ih hrest q hlater
    rw [List.map_cons, List.forall_mem_cons]
    exact ⟨prime_of_isPrimitive 256 a primes hdivisors hroot, ih hrest⟩

namespace ScalarField

/-- The orders of the supported fields, and the large primes that their being prime rests on. -/
def orders : List (ℕ × ℕ × List ℕ) :=
  [(bls12377.modulus, 22, [2, 3, 5, 7, 13, 499, 958612291309063373, 9586122913090633729]),
    (bn254.modulus, 5, [2, 3, 13, 29, 983, 11003, 237073, 405928799, 1670836401704629,
      13818364434197438864469338081]),
    (13818364434197438864469338081, 3, [2, 5, 823, 1593227, 65865678001877903]),
    (65865678001877903, 5, [2, 83, 379, 1637, 639533339]),
    (639533339, 2, [2, 229, 853, 1637]),
    (405928799, 22, [2, 11, 3691, 4999]),
    (1670836401704629, 2, [2, 3, 5156902474397]),
    (5156902474397, 2, [2, 107, 12048837557]),
    (12048837557, 2, [2, 7, 661, 93001]),
    (9586122913090633729, 11, [2, 3, 7, 13, 499]),
    (958612291309063373, 2, [2, 29, 167, 49484425527001]),
    (49484425527001, 14, [2, 3, 5, 1832756501]),
    (1832756501, 2, [2, 5, 29, 126397])]

/-- **The orders of the supported fields are prime.** -/
theorem modulus_prime (f : ScalarField) : f.modulus.Prime := by
  have hmem : f.modulus ∈ orders.map Prod.fst := by
    cases f with
    | bls12377 => exact List.mem_cons_self
    | bn254 => exact List.mem_cons_of_mem _ List.mem_cons_self
  exact prime_of_isCertified (by decide +kernel) _ hmem

instance (f : ScalarField) : Fact f.modulus.Prime :=
  ⟨f.modulus_prime⟩

end ScalarField

end StackCircuit
