import CommandVM.Machine.Arithmetic
import CommandVM.Machine.Variables
import CommandVM.Operator
import CommandVM.Proofs.ContainerRoundTrip
import CommandVM.Proofs.ValueViews
import Mathlib

/-!
# Values without their representations

An integer, and a list that holds no double, is known by its text: the text has the same integer and
the same elements. Erasing such representations leaves all views as they are, where the two tags of
integers count as one, and all operators give results that are the same after erasure.
-/

namespace CommandVM

theorem map_eq_cases {ε α β γ : Type} {x : Except ε α} {y : Except ε β} {f : α → γ} {g : β → γ}
    (same : x.map f = y.map g) :
    (∃ a b, x = .ok a ∧ y = .ok b ∧ f a = g b) ∨ ∃ e, x = .error e ∧ y = .error e := by
  cases x with
  | ok a =>
    cases y with
    | ok b => exact .inl ⟨a, b, rfl, rfl, Except.ok.inj same⟩
    | error e => cases same
  | error e =>
    cases y with
    | ok b => cases same
    | error e' =>
      cases same
      exact .inr ⟨e, rfl, rfl⟩

theorem option_map_eq_cases {α γ : Type} {x y : Option α} {f : α → γ} (same : x.map f = y.map f) :
    (x = none ∧ y = none) ∨ ∃ a b, x = some a ∧ y = some b ∧ f a = f b := by
  cases x with
  | none => exact .inl ⟨rfl, Option.map_eq_none_iff.mp same.symm⟩
  | some a =>
    obtain ⟨b, found, alike⟩ := Option.map_eq_some_iff.mp same.symm
    exact .inr ⟨a, b, rfl, found, alike.symm⟩

theorem nil_of_map_eq {α β : Type} {f : α → β} {bs : List α} (same : [].map f = bs.map f) :
    bs = [] :=
  List.map_eq_nil_iff.mp same.symm

theorem cons_of_map_eq {α β : Type} {f : α → β} {a : α} {as bs : List α}
    (same : (a :: as).map f = bs.map f) :
    ∃ b rest, bs = b :: rest ∧ f a = f b ∧ as.map f = rest.map f := by
  obtain ⟨b, rest, whole, first, others⟩ := List.map_eq_cons_iff.mp same.symm
  exact ⟨b, rest, whole, first.symm, others.symm⟩

/-! ### Numbers -/

/-- The number with an integer as a wide one. -/
def Number.widen : Number → Number
  | .int v => .wide v.toInt64
  | n => n

namespace Number

@[simp] theorem widen_ofInt64 (v : Int64) : (ofInt64 v).widen = .wide v := by
  rw [ofInt64]
  split
  · next fits => rw [widen, toInt64_toInt32 fits]
  · rfl

theorem toInt64?_widen (n : Number) : n.widen.toInt64? = n.toInt64? := by cases n <;> rfl

theorem toDouble_widen (n : Number) : n.widen.toDouble = n.toDouble := by cases n <;> rfl

theorem isDouble_widen (n : Number) : n.widen.isDouble = n.isDouble := by cases n <;> rfl

theorem isZero_widen (n : Number) : n.widen.isZero = n.isZero := by
  cases n with
  | int v =>
    rw [widen, isZero, isZero, Bool.eq_iff_iff, beq_iff_eq, beq_iff_eq, ← Int64.toInt_inj,
      ← Int32.toInt_inj, Int32.toInt_toInt64]
    rfl
  | _ => rfl

theorem text_widen (n : Number) : n.widen.text = n.text := by
  cases n with
  | int v => rw [widen, text, text, Int32.toInt_toInt64]
  | _ => rfl

section

variable {n k : Number} (same : n.widen = k.widen)
include same

theorem toInt64?_congr : n.toInt64? = k.toInt64? := by
  rw [← toInt64?_widen n, same, toInt64?_widen k]

theorem toDouble_congr : n.toDouble = k.toDouble := by
  rw [← toDouble_widen n, same, toDouble_widen k]

theorem toFloat_congr : n.toFloat = k.toFloat := by
  rw [toFloat, toDouble_congr same, toFloat]

theorem isZero_congr : n.isZero = k.isZero := by
  rw [← isZero_widen n, same, isZero_widen k]

end

end Number

/-! ### Values -/

namespace Value

/-- The texts of values that are all held as texts. -/
def texts? : List Value → Option (List String)
  | [] => some []
  | .text s :: vs => (texts? vs).map (s :: ·)
  | _ :: _ => none

/-- A list as a text, if all its elements are texts. -/
def ofItems (items : List Value) : Value :=
  match texts? items with
  | some texts => .text (ListText.join texts)
  | none => .list items

mutual

/-- The value as a text, but for doubles and lists that hold one. -/
def erase : Value → Value
  | .text s => .text s
  | .int v => .text (Number.text (.int v))
  | .wide v => .text (Number.text (.wide v))
  -- The text of a double need not read as the same double, so a double is kept.
  | .double x => .double x
  | .list items => ofItems (eraseAll items)

/-- Each value erased. -/
def eraseAll : List Value → List Value
  | [] => []
  | v :: vs => v.erase :: eraseAll vs

end

theorem eraseAll_eq_map (vs : List Value) : eraseAll vs = vs.map erase := by
  induction vs with
  | nil => rfl
  | cons v vs ih => exact congrArg (List.cons v.erase) ih

theorem eq_map_of_texts? {vs : List Value} {texts : List String} (all : texts? vs = some texts) :
    vs = texts.map Value.text := by
  induction vs generalizing texts with
  | nil =>
    cases all
    rfl
  | cons v vs ih =>
    cases v with
    | text s =>
      rw [texts?, Option.map_eq_some_iff] at all
      obtain ⟨rest, found, rfl⟩ := all
      rw [ih found, List.map_cons]
    | _ => cases all

theorem texts?_map_text (texts : List String) : texts? (texts.map Value.text) = some texts := by
  induction texts with
  | nil => rfl
  | cons s texts ih => rw [List.map_cons, texts?, ih, Option.map_some]

theorem str_ofItems (items : List Value) : (ofItems items).str = ListText.join (strs items) := by
  rw [ofItems]
  split
  · next texts all => rw [eq_map_of_texts? all, Container.strs_map_text, str]
  · rfl

mutual

theorem str_erase : ∀ v : Value, v.erase.str = v.str
  | .text _ | .int _ | .wide _ | .double _ => by simp [erase, str]
  | .list items => by rw [erase, str_ofItems, strs_eraseAll items, str]

theorem strs_eraseAll : ∀ vs : List Value, strs (eraseAll vs) = strs vs
  | [] => rfl
  | v :: vs => congrArg₂ List.cons (str_erase v) (strs_eraseAll vs)

end

/-! ### Views -/

theorem number_text (s : String) : (Value.text s).number = Number.read s := rfl

theorem number_list (items : List Value) :
    (Value.list items).number = Number.read (Value.list items).str := rfl

theorem number_erase (v : Value) : v.erase.number.map Number.widen = v.number.map Number.widen := by
  cases v with
  | int v =>
    have read := Number.read_integer v.toInt64
    rw [Int32.toInt_toInt64] at read
    rw [erase, number_text, Number.text, read]
    exact congrArg Except.ok (Number.widen_ofInt64 _)
  | wide v =>
    rw [erase, number_text, Number.text, Number.read_integer]
    exact congrArg Except.ok (Number.widen_ofInt64 _)
  | list items =>
    have same := str_erase (.list items)
    rw [erase, ofItems] at same ⊢
    split at same
    · rw [number_text, number_list, ← same, str]
    · rw [number_list, number_list, same]
  | _ => rfl

theorem items_erase (v : Value) : v.items.map (List.map erase) = v.erase.items := by
  have plain (texts : Except ListText.Error (List String)) :
      (texts.map (List.map Value.text)).map (List.map erase) = texts.map (List.map Value.text) := by
    cases texts with
    | error e => rfl
    | ok texts => simp [Except.map, Function.comp_def, erase]
  cases v with
  | list items =>
    rw [erase, eraseAll_eq_map, ofItems]
    split
    · next texts all =>
      have same := eq_map_of_texts? all
      have back := split_list (texts.map Value.text)
      rw [str, Container.strs_map_text, ← strs_eq_map, Container.strs_map_text] at back
      show Except.ok (items.map erase) = (ListText.split (ListText.join texts)).map _
      rw [back, same]
      rfl
    · rfl
  | _ => exact plain _

/-! ### Same after erasure -/

variable {v w : Value} (same : v.erase = w.erase)
include same

theorem str_congr : v.str = w.str := by rw [← str_erase v, same, str_erase w]

theorem number_congr : v.number.map Number.widen = w.number.map Number.widen := by
  rw [← number_erase v, same, number_erase w]

theorem items_congr : v.items.map (List.map erase) = w.items.map (List.map erase) := by
  rw [items_erase v, same, items_erase w]

theorem integer?_congr : v.integer? = w.integer? := by
  rw [integer?, integer?]
  rcases map_eq_cases (number_congr same) with ⟨n, k, hn, hk, widened⟩ | ⟨e, hv, hw⟩
  · rw [hn, hk]
    exact Number.toInt64?_congr widened
  · rw [hv, hw]

theorem truth?_congr : v.truth? = w.truth? := by
  rw [truth?, truth?]
  rcases map_eq_cases (number_congr same) with ⟨n, k, hn, hk, widened⟩ | ⟨e, hv, hw⟩
  · rw [hn, hk]
    exact congrArg (fun b => some (!b)) (Number.isZero_congr widened)
  · rw [hv, hw, str_congr same]

theorem append_congr (more : String) : (v.append more).erase = (w.append more).erase := by
  rw [append, append, str_congr same]

omit same

theorem list_congr {vs ws : List Value} (same : vs.map erase = ws.map erase) :
    (Value.list vs).erase = (Value.list ws).erase := by
  rw [erase, erase, eraseAll_eq_map, eraseAll_eq_map, same]

theorem strs_congr {vs ws : List Value} (same : vs.map erase = ws.map erase) :
    strs vs = strs ws := by
  rw [← strs_eraseAll vs, eraseAll_eq_map, same, ← eraseAll_eq_map, strs_eraseAll]

theorem push_congr {e e' : Value} (same : v.erase = w.erase) (element : e.erase = e'.erase) :
    (v.push e).map erase = (w.push e').map erase := by
  rw [push, push]
  rcases map_eq_cases (items_congr same) with ⟨vs, ws, hv, hw, items⟩ | ⟨e, hv, hw⟩
  · rw [hv, hw]
    refine congrArg Except.ok (list_congr ?_)
    rw [List.map_append, List.map_append, items, List.map_singleton, List.map_singleton, element]
  · rw [hv, hw]
    rfl

theorem ofNumber_congr {n k : Number} (same : n.widen = k.widen) :
    (ofNumber n).erase = (ofNumber k).erase := by
  have widened : ∀ n : Number, (ofNumber n.widen).erase = (ofNumber n).erase := by
    intro n
    cases n with
    | int v => exact congrArg Value.text (Number.text_widen (.int v))
    | _ => rfl
  rw [← widened n, same, widened k]

mutual

/-- The value is a double or a list that holds one. -/
def holdsDouble : Value → Bool
  | .double _ => true
  | .list items => anyDouble items
  | _ => false

/-- Some value is a double or a list that holds one. -/
def anyDouble : List Value → Bool
  | [] => false
  | v :: vs => v.holdsDouble || anyDouble vs

end

mutual

theorem erase_of_plain : ∀ v : Value, v.holdsDouble = false → v.erase = .text v.str
  | .text _, _ | .int _, _ | .wide _, _ => by simp [erase, str]
  | .double _, plain => by simp [holdsDouble] at plain
  | .list items, plain => by
    rw [holdsDouble] at plain
    rw [erase, eraseAll_of_plain items plain, ofItems, texts?_map_text, str]

theorem eraseAll_of_plain : ∀ vs : List Value, anyDouble vs = false →
    eraseAll vs = (strs vs).map Value.text
  | [], _ => rfl
  | v :: vs, plain => by
    have both : (v.holdsDouble || anyDouble vs) = false := plain
    obtain ⟨first, rest⟩ := Bool.or_eq_false_iff.mp both
    exact congrArg₂ List.cons (erase_of_plain v first) (eraseAll_of_plain vs rest)

end

end Value

/-! ### Operators -/

namespace Operator

variable {v w v' w' : Value} {a a' b b' : Number}

theorem operand_congr (same : v.erase = w.erase) (symbol : String) :
    (operand v symbol).map Number.widen = (operand w symbol).map Number.widen := by
  rw [operand, operand]
  rcases map_eq_cases (Value.number_congr same) with ⟨n, k, hn, hk, widened⟩ | ⟨e, hv, hw⟩
  · rw [hn, hk]
    exact congrArg Except.ok widened
  · rw [hv, hw]

theorem truth_congr (same : v.erase = w.erase) (symbol : String) :
    truth v symbol = truth w symbol := by
  rw [truth, truth, Value.truth?_congr same, Value.str_congr same]
  rcases map_eq_cases (Value.number_congr same) with ⟨n, k, hn, hk, _⟩ | ⟨e, hv, hw⟩
  · rw [hn, hk]
  · rw [hv, hw]

theorem widen_tagged (wide : Bool) (v : Int64) : (tagged wide v).widen = .wide v := by
  cases wide
  · exact Number.widen_ofInt64 v
  · rfl

theorem binary_congr (op : BinaryOp) (left : a.widen = a'.widen) (right : b.widen = b'.widen) :
    (binary op a b).map Number.widen = (binary op a' b').map Number.widen := by
  rw [binary, binary, Number.toInt64?_congr left, Number.toInt64?_congr right,
    Number.toFloat_congr left, Number.toFloat_congr right]
  split
  · next x y _ _ =>
    cases integerBinary op x y with
    | error e => rfl
    | ok z =>
      refine congrArg Except.ok ?_
      rw [widen_tagged, widen_tagged]
  · rfl

theorem unary_congr (op : UnaryOp) (symbol : String) (same : a.widen = a'.widen) :
    (unary op symbol a).map Number.widen = (unary op symbol a').map Number.widen := by
  have widened : ∀ n : Number,
      (unary op symbol n.widen).map Number.widen = (unary op symbol n).map Number.widen := by
    intro n
    cases n with
    | int x =>
      cases op with
      | plus => rfl
      | minus => exact congrArg Except.ok (Number.widen_ofInt64 _).symm
      | bitnot =>
        refine congrArg (fun v => Except.ok (Number.wide v)) (Int64.toInt_inj.mp ?_)
        have low := x.le_toInt
        have high := x.toInt_lt
        rw [Int64.toInt_not, Int32.toInt_toInt64, Int32.toInt_toInt64, Int32.toInt_not,
          Int.bmod_eq_of_le (by omega) (by omega), Int.bmod_eq_of_le (by omega) (by omega)]
    | _ => cases op <;> rfl
  rw [← widened a, same, widened a']

theorem compareNumbers_congr (left : a.widen = a'.widen) (right : b.widen = b'.widen) :
    compareNumbers a b = compareNumbers a' b' := by
  rw [compareNumbers, compareNumbers, Number.toInt64?_congr left, Number.toInt64?_congr right,
    Number.toFloat_congr left, Number.toFloat_congr right]

theorem compare_congr (left : v.erase = v'.erase) (right : w.erase = w'.erase) :
    compare v w = compare v' w' := by
  rw [compare, compare, Value.str_congr left, Value.str_congr right]
  rcases map_eq_cases (Value.number_congr left) with ⟨n, n', hn, hn', first⟩ | ⟨e, hv, hv'⟩
  · rcases map_eq_cases (Value.number_congr right) with ⟨k, k', hk, hk', second⟩ | ⟨e, hw, hw'⟩
    · rw [hn, hn', hk, hk']
      exact compareNumbers_congr first second
    · rw [hn, hn', hw, hw']
  · rw [hv, hv']

end Operator

section

variable {v w : Value} {amount : Int64}

theorem incremented_of_some {x : Int64} (found : v.integer? = some x) :
    (incremented v amount).map Number.widen = .ok (.wide (x + amount)) := by
  rw [Value.integer?] at found
  rw [incremented]
  split at found
  · next n read =>
    rw [read]
    cases n with
    | int y =>
      cases found
      exact congrArg Except.ok (Number.widen_ofInt64 _)
    | wide y =>
      cases found
      rfl
    | double y => cases found
  · cases found

theorem incremented_of_none (missing : v.integer? = none) :
    incremented v amount = .error (.expectedInteger v.str) := by
  rw [Value.integer?] at missing
  rw [incremented]
  split at missing
  · next n read =>
    rw [read]
    cases n with
    | double y => rfl
    | _ => cases missing
  · next e read => rw [read]

theorem incremented_congr (amount : Int64) (same : v.erase = w.erase) :
    (incremented v amount).map Number.widen = (incremented w amount).map Number.widen := by
  have integer := Value.integer?_congr same
  cases found : w.integer? with
  | some x => rw [incremented_of_some (integer.trans found), incremented_of_some found]
  | none =>
    rw [incremented_of_none (integer.trans found), incremented_of_none found, Value.str_congr same]

end

/-! ### Math functions -/

namespace MathFunction

theorem nativeInt_toInt (v : Int32) : nativeInt v.toInt = .ok (.int v) := by
  have low := v.le_toInt
  have high := v.toInt_lt
  have fits : Number.fitsInt v.toInt = true := by
    simp only [Number.fitsInt, Bool.and_eq_true, decide_eq_true_eq]
    omega
  rw [nativeInt, if_pos fits, Int32.ofInt_toInt]

theorem toInt_widen (n : Number) : toInt n.widen = toInt n := by
  cases n with
  | int v => rw [Number.widen, toInt, toInt, Int32.toInt_toInt64, nativeInt_toInt]
  | _ => rfl

theorem toWide_widen (n : Number) : toWide n.widen = toWide n := by cases n <;> rfl

theorem convert_widen (kind : ArgKind) (n : Number) :
    (convert kind n.widen).map Number.widen = (convert kind n).map Number.widen := by
  cases kind with
  | either => cases n <;> rfl
  | double => rw [convert, convert, Number.toDouble_widen]
  | int => rw [convert, convert, toInt_widen]
  | wide => rw [convert, convert, toWide_widen]

theorem convertValue_congr {v w : Value} (same : v.erase = w.erase) (kind : ArgKind) :
    (convertValue kind v).map Number.widen = (convertValue kind w).map Number.widen := by
  rw [convertValue, convertValue]
  rcases map_eq_cases (Value.number_congr same) with ⟨n, k, hn, hk, widened⟩ | ⟨e, hv, hw⟩
  · rw [hn, hk]
    exact ((convert_widen kind n).symm.trans (by rw [widened])).trans (convert_widen kind k)
  · rw [hv, hw]

theorem mapM_convertValue_congr {kinds : List ArgKind} {vs ws : List Value}
    (same : vs.map Value.erase = ws.map Value.erase) :
    ((kinds.zip vs).mapM fun (kind, v) => convertValue kind v).map (List.map Number.widen) =
      ((kinds.zip ws).mapM fun (kind, v) => convertValue kind v).map (List.map Number.widen) := by
  induction kinds generalizing vs ws with
  | nil => rfl
  | cons kind kinds ih =>
    cases vs with
    | nil => rw [nil_of_map_eq same]
    | cons v vs =>
      obtain ⟨w, ws, rfl, first, rest⟩ := cons_of_map_eq same
      rw [List.zip_cons_cons, List.zip_cons_cons, List.mapM_cons, List.mapM_cons]
      rcases map_eq_cases (convertValue_congr first kind) with ⟨n, k, hn, hk, head⟩ | ⟨e, hv, hw⟩
      · rcases map_eq_cases (ih rest) with ⟨ns, ks, hns, hks, tail⟩ | ⟨e, hvs, hws⟩
        · simp only [hn, hk, hns, hks, bind, Except.bind, pure, Except.pure, Except.map,
            List.map_cons, head, tail]
        · simp only [hn, hk, hvs, hws, bind, Except.bind]
      · simp only [hv, hw, bind, Except.bind]

theorem convertAll_congr (kinds : List ArgKind) {vs ws : List Value}
    (same : vs.map Value.erase = ws.map Value.erase) :
    (convertAll kinds vs).map (List.map Number.widen) =
      (convertAll kinds ws).map (List.map Number.widen) := by
  have length : vs.length = ws.length := by simpa using congrArg List.length same
  rw [convertAll, convertAll, length]
  split
  · rfl
  · split
    · rfl
    · exact mapM_convertValue_congr same

theorem absolute_widen (n : Number) : (absolute n.widen).widen = (absolute n).widen := by
  cases n with
  | int v => exact (Number.widen_ofInt64 _).symm
  | _ => rfl

theorem rounded_widen (n : Number) :
    (rounded n.widen).map Number.widen = (rounded n).map Number.widen := by
  cases n <;> rfl

theorem apply_congr (f : MathFunction) {ns ks : List Number} (clock : Int64) (seed : Option Nat)
    (same : ns.map Number.widen = ks.map Number.widen) :
    (f.apply ns clock seed).1.map Number.widen = (f.apply ks clock seed).1.map Number.widen ∧
      (f.apply ns clock seed).2 = (f.apply ks clock seed).2 := by
  have arg (i : Nat) : (ns.getD i (.int 0)).widen = (ks.getD i (.int 0)).widen := by
    rw [← List.getD_map ns (.int 0) Number.widen, same, List.getD_map]
  have first := arg 0
  have second := arg 1
  simp only [apply]
  generalize ns.getD 0 (.int 0) = a at first ⊢
  generalize ks.getD 0 (.int 0) = a' at first ⊢
  generalize ns.getD 1 (.int 0) = b at second ⊢
  generalize ks.getD 1 (.int 0) = b' at second ⊢
  cases f with
  | abs =>
    exact ⟨congrArg Except.ok (by rw [← absolute_widen a, first, absolute_widen]), rfl⟩
  | int => exact ⟨by rw [← toInt_widen a, first, toInt_widen], rfl⟩
  | round => exact ⟨by rw [← rounded_widen a, first, rounded_widen], rfl⟩
  | wide => exact ⟨by rw [← toWide_widen a, first, toWide_widen], rfl⟩
  | rand => exact ⟨rfl, rfl⟩
  | srand => rw [Number.toInt64?_congr first]; exact ⟨rfl, rfl⟩
  | _ =>
    rw [Number.toDouble_congr first, Number.toDouble_congr second]
    exact ⟨rfl, rfl⟩

theorem call_congr (f : MathFunction) {vs ws : List Value} (clock : Int64) (seed : Option Nat)
    (same : vs.map Value.erase = ws.map Value.erase) :
    (f.call vs clock seed).1.map Number.widen = (f.call ws clock seed).1.map Number.widen ∧
      (f.call vs clock seed).2 = (f.call ws clock seed).2 := by
  rw [call, call]
  rcases map_eq_cases (convertAll_congr f.args same) with ⟨ns, ks, hn, hk, args⟩ | ⟨e, hv, hw⟩
  · rw [hn, hk]
    exact apply_congr f clock seed args
  · rw [hv, hw]
    exact ⟨rfl, rfl⟩

end MathFunction

end CommandVM
