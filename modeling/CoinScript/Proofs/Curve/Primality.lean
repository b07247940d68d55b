import CoinScript.Curve.Secp256k1
import CoinScript.Proofs.Field.Residues
import Mathlib.Data.List.Prime
import Mathlib.NumberTheory.LucasPrimality
import Mathlib.Tactic.NormNum.Prime

/-!
# The two moduli are prime

Lucas's test proves a number prime from an element whose order is the number
less one, given the prime factors of that order. The factors are tested in the
same way down to small primes, so that a table of numbers with their factors
and an element for each is a proof. Only repeated squaring has to be evaluated.
-/

namespace CoinScript

/-- A number, an element of greatest order, and the prime factors of that order with repetition. -/
structure LucasEntry where
  number : Nat
  element : Nat
  factors : List Nat

namespace LucasEntry

/-- Lucas's test of an entry whose factors are among the numbers known to be prime. -/
def passes (known : List Nat) (e : LucasEntry) : Bool :=
  2 ≤ e.number && e.factors.prod == e.number - 1 &&
    powMod e.element (e.number - 1) e.number == 1 &&
    e.factors.all fun q =>
      known.contains q && powMod e.element ((e.number - 1) / q) e.number != 1

/-- The numbers known to be prime after a table, in which an entry may use those below it. -/
def certified (small : List Nat) : List LucasEntry → List Nat
  | [] => small
  | e :: rest =>
    let known := certified small rest
    if e.passes known then e.number :: known else known

theorem powMod_eq_one_iff {n : Nat} (two_le : 2 ≤ n) (a e : Nat) :
    powMod a e n = 1 ↔ (a : ZMod n) ^ e = 1 := by
  rw [powMod_eq, ← Nat.cast_pow, ← Nat.cast_one (R := ZMod n), ZMod.natCast_eq_natCast_iff',
    Nat.one_mod_eq_one.mpr (by omega)]

theorem prime_of_passes {known : List Nat} {e : LucasEntry} (primes : ∀ q ∈ known, q.Prime)
    (passed : e.passes known = true) : e.number.Prime := by
  simp only [passes, Bool.and_eq_true, decide_eq_true_eq, beq_iff_eq, List.all_eq_true,
    List.contains_iff_mem, bne_iff_ne] at passed
  obtain ⟨⟨⟨two_le, product⟩, full⟩, factors⟩ := passed
  refine lucas_primality e.number (e.element : ZMod e.number)
    ((powMod_eq_one_iff two_le _ _).mp full) ?_
  intro q prime divides unit
  rw [← product] at divides
  obtain ⟨r, listed, dvd⟩ := (Prime.dvd_prod_iff prime.prime).mp divides
  obtain ⟨inside, partly⟩ := factors r listed
  obtain rfl : q = r := (Nat.prime_dvd_prime_iff_eq prime (primes r inside)).mp dvd
  exact partly ((powMod_eq_one_iff two_le _ _).mpr unit)

theorem prime_of_certified {small : List Nat} (primes : ∀ q ∈ small, q.Prime)
    (table : List LucasEntry) : ∀ q ∈ certified small table, q.Prime := by
  induction table with
  | nil => exact primes
  | cons e rest ih =>
    intro q listed
    rw [certified] at listed
    by_cases passed : e.passes (certified small rest) = true
    · rw [if_pos passed] at listed
      rcases List.mem_cons.mp listed with rfl | below
      · exact prime_of_passes ih passed
      · exact ih q below
    · rw [if_neg passed] at listed
      exact ih q listed

end LucasEntry

namespace Secp256k1

def smallPrimes : List Nat :=
  [2, 3, 5, 7, 11, 17, 19, 29, 31, 41, 53, 59, 97, 109, 113, 149, 293, 461, 631, 797, 971, 1373,
    1627, 1871, 2011, 2621, 2657, 2731, 4051, 4423, 5323, 7723, 9349, 13441, 16699, 20113, 24809,
    28181, 41201, 85831, 96557]

/-- The order of the generator, then the modulus of the coordinates, each above the primes that
its predecessor is built from. -/
def lucasTable : List LucasEntry :=
  [⟨order, 7, [2, 2, 2, 2, 2, 2, 3, 149, 631, 107361793816595537, 174723607534414371449,
      341948486974166000522343609283189]⟩,
    ⟨341948486974166000522343609283189, 2, [2, 2, 3, 3, 3, 109, 29047611873442575647497758179]⟩,
    ⟨29047611873442575647497758179, 2, [2, 293, 305873, 545358713, 297159362677]⟩,
    ⟨297159362677, 2, [2, 2, 3, 3, 11, 461, 1627771]⟩,
    ⟨1627771, 3, [2, 3, 5, 29, 1871]⟩,
    ⟨545358713, 5, [2, 2, 2, 41, 59, 28181]⟩,
    ⟨305873, 3, [2, 2, 2, 2, 7, 2731]⟩,
    ⟨174723607534414371449, 3, [2, 2, 2, 17, 59, 4051, 120233, 44706919]⟩,
    ⟨44706919, 6, [2, 3, 797, 9349]⟩,
    ⟨120233, 3, [2, 2, 2, 7, 19, 113]⟩,
    ⟨107361793816595537, 3, [2, 2, 2, 2, 16699, 85831, 4681609]⟩,
    ⟨4681609, 23, [2, 2, 2, 3, 97, 2011]⟩,
    ⟨fieldPrime, 3, [2, 3, 7, 13441,
      205115282021455665897114700593932402728804164701536103180137503955397371]⟩,
    ⟨205115282021455665897114700593932402728804164701536103180137503955397371, 10,
      [2, 3, 5, 29, 29, 31, 7723, 132896956044521568488119,
        255515944373312847190720520512484175977]⟩,
    ⟨255515944373312847190720520512484175977, 3,
      [2, 2, 2, 7, 7, 11, 1627, 2657, 4423, 41201, 96557, 7240687, 107590001]⟩,
    ⟨107590001, 3, [2, 2, 2, 2, 5, 5, 5, 5, 7, 29, 53]⟩,
    ⟨7240687, 3, [2, 3, 1206781]⟩,
    ⟨1206781, 10, [2, 2, 3, 5, 20113]⟩,
    ⟨132896956044521568488119, 6, [2, 3, 22149492674086928081353]⟩,
    ⟨22149492674086928081353, 5, [2, 2, 2, 3, 5323, 173378833005251801]⟩,
    ⟨173378833005251801, 6, [2, 2, 2, 5, 5, 2621, 24809, 13331831]⟩,
    ⟨13331831, 13, [2, 5, 971, 1373]⟩]

theorem prime_of_smallPrimes : ∀ q ∈ smallPrimes, q.Prime := by
  norm_num [smallPrimes]

theorem fieldPrime_prime : fieldPrime.Prime :=
  LucasEntry.prime_of_certified prime_of_smallPrimes lucasTable fieldPrime (by decide +kernel)

theorem order_prime : order.Prime :=
  LucasEntry.prime_of_certified prime_of_smallPrimes lucasTable order (by decide +kernel)

instance : Fact fieldPrime.Prime := ⟨fieldPrime_prime⟩

instance : Fact order.Prime := ⟨order_prime⟩

end Secp256k1

end CoinScript
