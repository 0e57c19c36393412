import CommandVM.Proofs.FailedAccess
import CommandVM.Proofs.ValueViews

/-!
# Increments

An increment has arithmetic of its own, and it agrees with the operator of addition: both give the
sum reduced to 64 bits, and the text of an integer does not show its tag.
-/

namespace CommandVM

namespace Number

variable {n a b : Number} {x y : Int64}

theorem toInt64?_tagged (wide : Bool) (x : Int64) :
    (Operator.tagged wide x).toInt64? = some x := by
  cases wide with
  | true => rfl
  | false =>
    show (ofInt64 x).toInt64? = some x
    unfold ofInt64
    split
    · rename_i fits
      exact congrArg some (toInt64_toInt32 fits)
    · rfl

/-- The text of an integer follows from its value. -/
theorem text_integer (value : n.toInt64? = some x) : n.text = toString x.toInt := by
  cases n with
  | int v =>
    cases value
    rw [text, Int32.toInt_toInt64]
  | wide v =>
    cases value
    rfl
  | double v => cases value

theorem binary_add (left : a.toInt64? = some x) (right : b.toInt64? = some y) :
    ∃ sum, Operator.binary .add a b = .ok sum ∧ sum.toInt64? = some (x + y) := by
  refine ⟨_, ?_, toInt64?_tagged (Operator.isWideResult .add a b) (x + y)⟩
  simp only [Operator.binary, left, right, Operator.integerBinary]
  rfl

end Number

theorem Value.str_ofNumber (n : Number) : (Value.ofNumber n).str = n.text := by
  cases n <;> rfl

variable {current : Value} {x amount : Int64}

theorem Value.number_of_integer? (view : current.integer? = some x) :
    ∃ n, current.number = .ok n ∧ n.toInt64? = some x := by
  unfold Value.integer? at view
  split at view
  · rename_i n read
    exact ⟨n, read, view⟩
  · cases view

/-- An integer is incremented by addition in 64 bits. -/
theorem incremented_integer (view : current.integer? = some x) :
    ∃ n, incremented current amount = .ok n ∧ n.toInt64? = some (x + amount) := by
  obtain ⟨n, read, value⟩ := Value.number_of_integer? view
  cases n with
  | int v =>
    cases value
    refine ⟨.ofInt64 (v.toInt64 + amount), ?_, Number.toInt64?_tagged false _⟩
    simp only [incremented, read]
  | wide v =>
    cases value
    refine ⟨.wide (x + amount), ?_, rfl⟩
    simp only [incremented, read]
  | double v => cases value

theorem incremented_other (none : current.integer? = none) :
    incremented current amount = .error (.expectedInteger current.str) := by
  unfold Value.integer? at none
  unfold incremented
  split at none
  · rename_i n read
    cases n with
    | double v => simp only [read]
    | _ => cases none
  · rename_i e read
    simp only [read]

/-- The increment of an unobserved scalar or element that is an integer gives and leaves the text of
the sum that the operator computes; of one that is not, it fails and leaves all as it is. -/
theorem increments_add {s : Store} {var : Nat} {v : Variable} {index : Option String}
    (found : s.var? var = some v) (unobserved : v.observers = [])
    (holds : v.binding.read index = .ok current) (amount : Int64) :
    (∀ x b, current.integer? = some x → b.toInt64? = some amount →
      ∃ a sum, current.number = .ok a ∧ Operator.binary .add a b = .ok sum ∧
        sum.toInt64? = some (x + amount) ∧
        ∃ value s' v' now, s.access var index (.increment amount) = (.ok value, s') ∧
          s'.var? var = some v' ∧ v'.binding.read index = .ok now ∧
          value.str = (Value.ofNumber sum).str ∧ now.str = (Value.ofNumber sum).str) ∧
      (current.integer? = none →
        s.access var index (.increment amount) = (.error (.expectedInteger current.str), s)) := by
  have alone : s.access var index (.increment amount) = ((v.alone index (.increment amount)).1,
      s.update var fun _ => (v.alone index (.increment amount)).2) :=
    Store.accessWith_alone (Store.fireTo_skips _) found unobserved
  constructor
  · intro x b view right
    obtain ⟨a, read, left⟩ := Value.number_of_integer? view
    obtain ⟨sum, added, total⟩ := Number.binary_add left right
    obtain ⟨n, next, same⟩ :
        ∃ n, incremented current amount = .ok n ∧ n.toInt64? = some (x + amount) :=
      incremented_integer view
    have text : (Value.ofNumber n).str = (Value.ofNumber sum).str := by
      rw [Value.str_ofNumber, Value.str_ofNumber, Number.text_integer same,
        Number.text_integer total]
    have changed : v.alone index (.increment amount) =
        (.ok (.ofNumber n), { v with binding := v.binding.set index (.ofNumber n) }) := by
      simp only [Variable.alone, holds, next]
    rw [changed] at alone
    exact ⟨a, sum, read, added, total, _, _, _, _, alone, Store.var?_update found rfl,
      Binding.read_set holds, text, text⟩
  · intro other
    have refused :
        v.alone index (.increment amount) = (.error (.expectedInteger current.str), v) := by
      simp only [Variable.alone, holds, incremented_other other]
    rw [alone, refused, Store.update_self found]

/-- An array with an integer in hexadecimal digits at the limit of 32 bits, and a fraction. -/
def counters : Variable where
  name := "a"
  binding := .array [("hex", .text "0x7fffffff"), ("half", .text "1.5")]

theorem counters_increment : ∃ s : Store, s.var? 0 = some counters ∧
    (∃ value s' v' now, s.access 0 (some "hex") (.increment 1) = (.ok value, s') ∧
      s'.var? 0 = some v' ∧ v'.binding.read (some "hex") = .ok now ∧
      value.str = "2147483648" ∧ now.str = "2147483648") ∧
    s.access 0 (some "half") (.increment 1) = (.error (.expectedInteger "1.5"), s) := by
  let s : Store := { current := .ofVars [counters] (by decide) }
  have found : s.var? 0 = some counters := rfl
  have hex : counters.binding.read (some "hex") = .ok (.text "0x7fffffff") := rfl
  have half : counters.binding.read (some "half") = .ok (.text "1.5") := rfl
  have view : (Value.text "0x7fffffff").integer? = some 0x7fffffff := by decide +kernel
  have other : (Value.text "1.5").integer? = none := by decide +kernel
  obtain ⟨a, sum, _, _, total, value, s', v', now, ended, there, reads, given, left⟩ :=
    (increments_add found rfl hex 1).1 0x7fffffff (.int 1) view rfl
  have text : (Value.ofNumber sum).str = "2147483648" := by
    rw [Value.str_ofNumber, Number.text_integer total]
    decide +kernel
  exact ⟨s, found, ⟨value, s', v', now, ended, there, reads, given.trans text, left.trans text⟩,
    (increments_add found rfl half 1).2 other⟩

end CommandVM
