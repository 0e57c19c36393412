import CommandVM.Machine.Frame
import Mathlib.Data.Int.ModEq
import Mathlib.Tactic.LinearCombination
import Mathlib.Tactic.Ring

/-!
# The seeds of the random generator

The generator multiplies its seed modulo a prime without leaving 32 bits: `next_eq` shows that its
step is this multiplication. Zero and the modulus lead to zero for ever. The seeds between them lead
to one another, and `srand` stores such a seed, so that a generator that was seeded keeps moving.
-/

namespace CommandVM

namespace Random

variable {s : Nat}

/-! ### One step -/

/-- The step takes away a multiple of the modulus, since this is the multiplier times the quotient
and the remainder. -/
theorem advance_eq (s : Nat) :
    advance s = (multiplier : Int) * s - (modulus : Int) * (s / quotient : Nat) := by
  have split : (s : Int) = quotient * (s / quotient : Nat) + (s % quotient : Nat) := by
    exact_mod_cast (Nat.div_add_mod s quotient).symm
  have decomposed : (modulus : Int) = multiplier * quotient + remainder := by decide
  rw [advance, decomposed]
  linear_combination (-(multiplier : Int)) * split

theorem advance_between (small : s ≤ modulus) :
    -(modulus : Int) < advance s ∧ advance s < modulus := by
  simp only [advance, multiplier, modulus, quotient, remainder] at small ⊢
  omega

theorem next_cast (small : s ≤ modulus) :
    (next s : Int) = if advance s < 0 then advance s + modulus else advance s := by
  have between := advance_between small
  unfold next
  dsimp only
  split <;> exact Int.toNat_of_nonneg (by omega)

theorem next_lt (small : s ≤ modulus) : next s < modulus := by
  have between := advance_between small
  have cast := next_cast small
  split at cast <;> omega

theorem next_modEq (small : s ≤ modulus) : next s ≡ multiplier * s [MOD modulus] := by
  rw [← Int.natCast_modEq_iff, next_cast small, advance_eq]
  push_cast
  -- The correction gives back one of the multiples that the step took away.
  split
  · refine Int.modEq_iff_dvd.mpr ⟨(s / quotient : Nat) - 1, ?_⟩
    push_cast
    ring
  · refine Int.modEq_iff_dvd.mpr ⟨(s / quotient : Nat), ?_⟩
    push_cast
    ring

/-- The next seed is the product modulo the modulus. -/
theorem next_eq (small : s ≤ modulus) : next s = multiplier * s % modulus :=
  (Nat.mod_eq_of_lt (next_lt small)).symm.trans (next_modEq small)

/-! ### Seeds that move -/

/-- The seed lies between the two from which the generator stays at zero. -/
def Alive (s : Nat) : Prop := 1 ≤ s ∧ s ≤ 2 ^ 31 - 2

theorem Alive.le (alive : Alive s) : s ≤ modulus := by
  have high := alive.2
  simp only [modulus]
  omega

/-- The multiplier has no factor in common with the modulus, so that a product that is a multiple of
the modulus has one as its other factor. -/
theorem Alive.next (alive : Alive s) : Alive (next s) := by
  have below := next_lt alive.le
  have coprime : Nat.Coprime modulus multiplier := by decide
  have moves : Random.next s ≠ 0 := by
    intro zero
    rw [next_eq alive.le] at zero
    have divides : modulus ∣ s := coprime.dvd_of_dvd_mul_left (Nat.dvd_of_mod_eq_zero zero)
    have large := Nat.le_of_dvd alive.1 divides
    have high := alive.2
    simp only [modulus] at large
    omega
  simp only [modulus] at below
  exact ⟨by omega, by omega⟩

/-- Whatever number is the seed, its low bits or what replaces them lie between the two. -/
theorem alive_scramble (n : Int) : Alive (scramble n) := by
  have bits : (n % 0x80000000).toNat < 2 ^ 31 := by omega
  unfold scramble Alive
  dsimp only
  generalize (n % 0x80000000).toNat = seed at bits ⊢
  split
  · next stuck =>
    simp only [Bool.or_eq_true, decide_eq_true_eq] at stuck
    rcases stuck with rfl | rfl <;> decide
  · next moving =>
    simp only [Bool.or_eq_true, decide_eq_true_eq] at moving
    omega

theorem next_of_stuck (stuck : s = 0 ∨ s = 2 ^ 31 - 1) : next s = 0 := by
  rcases stuck with rfl | rfl <;> decide

/-- The seed moves, and the step from it stays within 32 bits also before its correction. -/
structure Steady (s : Nat) : Prop where
  low : 1 ≤ s
  high : s ≤ 2 ^ 31 - 2
  above : -(2 ^ 31 - 1) < advance s
  below : advance s < 2 ^ 31 - 1

theorem Alive.steady (alive : Alive s) : Steady s where
  low := alive.1
  high := alive.2
  above := (advance_between alive.le).1
  below := (advance_between alive.le).2

end Random

/-! ### Calls -/

open CommandVM.Random

/-- The generator was seeded, and its seed moves. -/
def Machine.Seeded (m : Machine) : Prop := ∃ s, m.seed = some s ∧ Alive s

variable {m : Machine} {s : Nat}

/-- A function leaves the seed alone, draws from the generator, or seeds it anew and draws. -/
theorem MathFunction.apply_seed (f : MathFunction) (args : List Number) (clock : Int64)
    (seed : Option Nat) :
    (f.apply args clock seed).2 = seed ∨ (f.apply args clock seed).2 = (draw clock seed).2 ∨
      ∃ n, (f.apply args clock seed).2 = (draw clock (some (scramble n))).2 := by
  cases f with
  | rand => exact .inr (.inl rfl)
  | srand => exact .inr (.inr ⟨_, rfl⟩)
  | _ => exact .inl rfl

theorem MathFunction.call_alive (f : MathFunction) (vs : List Value) (clock : Int64)
    (alive : Alive s) : ∃ s', (f.call vs clock (some s)).2 = some s' ∧ Alive s' := by
  unfold call
  split
  · exact ⟨s, rfl, alive⟩
  · next args _ =>
    rcases f.apply_seed args clock (some s) with kept | drawn | ⟨n, seeded⟩
    · exact ⟨s, kept, alive⟩
    · exact ⟨_, drawn, alive.next⟩
    · exact ⟨_, seeded, (alive_scramble n).next⟩

namespace Frame

theorem callBuiltin_seed (f : MathFunction) (args : List Value) (m : Machine) :
    (callBuiltin f args m).2.seed = (f.call args m.clock m.seed).2 := by
  unfold callBuiltin
  dsimp only
  split <;> rfl

theorem rand_seed (seed : m.seed = some s) : (callBuiltin .rand [] m).2.seed = some (next s) := by
  rw [callBuiltin_seed, seed]
  rfl

theorem srand_seed {v : Value} {n : Int32}
    (read : MathFunction.convertValue .int v = .ok (.int n)) :
    (callBuiltin .srand [v] m).2.seed = some (next (scramble n.toInt)) := by
  have converted : MathFunction.convertAll (MathFunction.args .srand) [v] = .ok [.int n] := by
    simp only [MathFunction.convertAll, MathFunction.args, List.zip_cons_cons, List.zip_nil_right,
      List.mapM_cons, List.mapM_nil, read]
    rfl
  -- The native integer is widened on its way to the generator.
  have widened : n.toInt64.toInt = n.toInt := n.toInt_toInt64
  rw [callBuiltin_seed, MathFunction.call, converted, ← widened]
  rfl

theorem callBuiltin_seeded (f : MathFunction) (args : List Value) (seeded : m.Seeded) :
    (callBuiltin f args m).2.Seeded := by
  obtain ⟨s, seed, alive⟩ := seeded
  rw [Machine.Seeded, callBuiltin_seed, seed]
  exact f.call_alive args m.clock alive

/-- The machine after calls of built-in functions, whatever comes of each. -/
def afterCalls (m : Machine) (calls : List (MathFunction × List Value)) : Machine :=
  calls.foldl (fun m call => (callBuiltin call.1 call.2 m).2) m

theorem afterCalls_seeded (calls : List (MathFunction × List Value)) (seeded : m.Seeded) :
    (afterCalls m calls).Seeded := by
  induction calls generalizing m with
  | nil => exact seeded
  | cons call calls ih => exact ih (callBuiltin_seeded call.1 call.2 seeded)

end Frame

open CommandVM.Frame

/-- After `srand` with a native integer and any calls of built-in functions, draws among them, the
seed moves and a draw multiplies it modulo the modulus. The same holds of the seed that `srand`
stores before its own draw. So the two seeds that lead to zero are never reached. -/
theorem Random.seeded_generator_keeps_moving (m : Machine) (v : Value) (n : Int32)
    (read : MathFunction.convertValue .int v = .ok (.int n))
    (calls : List (MathFunction × List Value)) :
    Steady (scramble n.toInt) ∧
      (callBuiltin .srand [v] m).2.seed = some (16807 * scramble n.toInt % (2 ^ 31 - 1)) ∧
      (∃ s, (afterCalls (callBuiltin .srand [v] m).2 calls).seed = some s ∧ Steady s ∧
        (callBuiltin .rand [] (afterCalls (callBuiltin .srand [v] m).2 calls)).2.seed =
          some (16807 * s % (2 ^ 31 - 1))) ∧
      ∀ s, s = 0 ∨ s = 2 ^ 31 - 1 → next s = 0 := by
  have first := alive_scramble n.toInt
  have stored := srand_seed (m := m) read
  have seeded : (callBuiltin .srand [v] m).2.Seeded := ⟨_, stored, first.next⟩
  obtain ⟨s, seed, alive⟩ := afterCalls_seeded calls seeded
  refine ⟨first.steady, ?_, ⟨s, seed, alive.steady, ?_⟩, fun _ => next_of_stuck⟩
  · rw [stored, next_eq first.le]
    rfl
  · rw [rand_seed seed, next_eq alive.le]
    rfl

/-- The low bits of -1 are the modulus, which is replaced. -/
theorem Random.seeded_with_minus_one :
    MathFunction.convertValue .int (.text "-1") = .ok (.int (-1)) ∧
      (callBuiltin .srand [.text "-1"] {}).2.seed = some 1626550717 ∧
      (afterCalls (callBuiltin .srand [.text "-1"] {}).2 [(.rand, [])]).seed = some 2118557956 ∧
      Steady 2118557956 ∧
      (callBuiltin .rand []
        (afterCalls (callBuiltin .srand [.text "-1"] {}).2 [(.rand, [])])).2.seed =
          some 1324699232 := by
  have read : MathFunction.convertValue .int (.text "-1") = .ok (.int (-1)) := rfl
  obtain ⟨_, first, ⟨s, seed, steady, drawn⟩, _⟩ :=
    seeded_generator_keeps_moving {} (.text "-1") (-1) read [(.rand, [])]
  have moved : (afterCalls (callBuiltin .srand [.text "-1"] {}).2 [(.rand, [])]).seed =
      some 2118557956 := by
    rw [afterCalls, List.foldl_cons, List.foldl_nil, rand_seed first]
    decide
  rw [moved] at seed
  obtain rfl := Option.some.inj seed
  exact ⟨read, first, moved, steady, drawn⟩

end CommandVM
