import CommandVM.Proofs.Erasure.Values
import CommandVM.Proofs.Variables.Scopes

/-!
# Variables without representations

Accesses to stores that are the same after erasure, observers included, give results and stores that
are the same after erasure.
-/

namespace CommandVM

/-- The binding with each of its values changed. -/
def Binding.map (f : Value → Value) : Binding → Binding
  | .undefined => .undefined
  | .scalar v => .scalar (f v)
  | .array elements => .array (elements.map fun pair => (pair.1, f pair.2))

/-- The variable with each of its values changed. -/
def Variable.map (f : Value → Value) (v : Variable) : Variable :=
  { v with binding := v.binding.map f }

/-- The scope with each of its values changed. -/
def Scope.map (f : Value → Value) (s : Scope) : Scope where
  vars := s.vars.map (·.map f)
  byName := s.byName
  indexed := by rw [List.map_map]; exact s.indexed
  distinct := by rw [List.map_map]; exact s.distinct

/-- The store with each of its values changed. -/
def Store.map (f : Value → Value) (s : Store) : Store :=
  { s with current := s.current.map f, callers := s.callers.map (·.map f) }

def Binding.erase (b : Binding) : Binding := b.map Value.erase

def Variable.erase (v : Variable) : Variable := v.map Value.erase

def Scope.erase (s : Scope) : Scope := s.map Value.erase

def Store.erase (s : Store) : Store := s.map Value.erase

/-- The access with its value erased. -/
def Access.erase : Access → Access
  | .write v mode => .write v.erase mode
  | access => access

theorem Access.write_congr {v w : Value} (same : v.erase = w.erase) (mode : WriteMode) :
    (Access.write v mode).erase = (Access.write w mode).erase :=
  congrArg (Access.write · mode) same

/-! ### Bindings and alike -/

theorem lookup_map_erase (elements : List (String × Value)) (key : String) :
    (elements.map fun pair => (pair.1, pair.2.erase)).lookup key =
      (elements.lookup key).map Value.erase := by
  induction elements with
  | nil => rfl
  | cons pair elements ih =>
    rw [List.map_cons, List.lookup_cons, List.lookup_cons]
    split
    · rfl
    · exact ih

theorem setElement_erase (elements : List (String × Value)) (key : String) (v : Value) :
    (setElement elements key v).map (fun pair => (pair.1, pair.2.erase)) =
      setElement (elements.map fun pair => (pair.1, pair.2.erase)) key v.erase := by
  induction elements with
  | nil => rfl
  | cons pair elements ih =>
    obtain ⟨k, w⟩ := pair
    rw [setElement, List.map_cons, setElement]
    dsimp only
    split
    · rfl
    · rw [List.map_cons, ih]

namespace Binding

theorem read_erase (b : Binding) (index : Option String) :
    b.erase.read index = (b.read index).map Value.erase := by
  cases b with
  | undefined => rfl
  | scalar v => cases index <;> rfl
  | array elements =>
    cases index with
    | none => rfl
    | some key =>
      simp only [erase, map, read, lookup_map_erase]
      cases elements.lookup key <;> rfl

theorem place_erase (b : Binding) (index : Option String) :
    b.erase.place index = (b.place index).map fun pair => (pair.1.erase, pair.2.erase) := by
  cases b with
  | undefined => cases index <;> rfl
  | scalar v => cases index <;> rfl
  | array elements =>
    cases index with
    | none => rfl
    | some key =>
      simp only [erase, map, place, lookup_map_erase]
      cases elements.lookup key with
      | some v => rfl
      | none =>
        have made := (setElement_erase elements key Value.empty).symm
        exact congrArg (fun elements => Except.ok (Value.empty, Binding.array elements)) made

theorem set_erase (b : Binding) (index : Option String) (v : Value) :
    (b.set index v).erase = b.erase.set index v.erase := by
  cases index with
  | none => cases b <;> rfl
  | some key =>
    cases b with
    | array elements => exact congrArg Binding.array (setElement_erase elements key v)
    | _ => rfl

end Binding

theorem WriteMode.combine_congr (mode : WriteMode) {old old' new new' : Value}
    (first : old.erase = old'.erase) (second : new.erase = new'.erase) :
    (mode.combine old new).map Value.erase = (mode.combine old' new').map Value.erase := by
  cases mode with
  | set => exact congrArg Except.ok second
  | append =>
    rw [combine, combine, Value.str_congr second]
    exact congrArg Except.ok (Value.append_congr first _)
  | listAppend =>
    rw [combine, combine]
    rcases map_eq_cases (Value.push_congr first second) with ⟨v, w, hv, hw, same⟩ | ⟨e, hv, hw⟩
    · rw [hv, hw]
      exact congrArg Except.ok same
    · rw [hv, hw]

namespace Variable

variable {v v' : Variable}

theorem name_congr (same : v.erase = v'.erase) : v.name = v'.name :=
  (congrArg Variable.name same : _)

theorem observers_congr (same : v.erase = v'.erase) : v.observers = v'.observers :=
  (congrArg Variable.observers same : _)

theorem firing_congr (same : v.erase = v'.erase) : v.firing = v'.firing :=
  (congrArg Variable.firing same : _)

theorem binding_congr (same : v.erase = v'.erase) : v.binding.erase = v'.binding.erase :=
  (congrArg Variable.binding same : _)

theorem read_congr (same : v.erase = v'.erase) (index : Option String) :
    (v.binding.read index).map Value.erase = (v'.binding.read index).map Value.erase := by
  rw [← Binding.read_erase, binding_congr same, Binding.read_erase]

theorem setBinding_congr (same : v.erase = v'.erase) {b b' : Binding}
    (bindings : b.erase = b'.erase) :
    ({ v with binding := b } : Variable).erase = ({ v' with binding := b' } : Variable).erase := by
  show ({ v.erase with binding := b.erase } : Variable) = { v'.erase with binding := b'.erase }
  rw [same, bindings]

theorem write_congr (same : v.erase = v'.erase) (index : Option String) {value value' : Value}
    (written : value.erase = value'.erase) (mode : WriteMode) :
    (v.write index value mode).1.map Value.erase = (v'.write index value' mode).1.map Value.erase ∧
      (v.write index value mode).2.erase = (v'.write index value' mode).2.erase := by
  have places : (v.binding.place index).map (fun pair => (pair.1.erase, pair.2.erase)) =
      (v'.binding.place index).map fun pair => (pair.1.erase, pair.2.erase) := by
    rw [← Binding.place_erase, binding_congr same, Binding.place_erase]
  rw [write, write]
  rcases map_eq_cases places with ⟨⟨old, made⟩, ⟨old', made'⟩, hv, hw, both⟩ | ⟨e, hv, hw⟩
  · rw [hv, hw]
    dsimp only
    obtain ⟨olds, bindings⟩ := Prod.mk.inj both
    rcases map_eq_cases (mode.combine_congr olds written) with
      ⟨new, new', hn, hn', news⟩ | ⟨e, hn, hn'⟩
    · rw [hn, hn']
      refine ⟨congrArg Except.ok news, setBinding_congr same ?_⟩
      rw [Binding.set_erase, Binding.set_erase, bindings, news]
    · rw [hn, hn']
      exact ⟨rfl, setBinding_congr same bindings⟩
  · rw [hv, hw]
    exact ⟨rfl, same⟩

theorem direct?_erase (v : Variable) (index : Option String) (access : Access) :
    v.erase.direct? index access.erase =
      (v.direct? index access).map fun pair => (pair.1.erase, pair.2.erase) := by
  obtain ⟨name, binding, observers, firing⟩ := v
  cases observers with
  | cons o os => cases access <;> rfl
  | nil =>
    cases index with
    | some key => cases access <;> rfl
    | none =>
      cases binding with
      | scalar w =>
        cases access with
        | write value mode => cases mode <;> rfl
        | _ => rfl
      | _ => cases access <;> rfl

theorem displayName_congr (same : v.erase = v'.erase) (index : Option String) :
    v.displayName index = v'.displayName index := by
  cases index with
  | none => exact name_congr same
  | some key => exact congrArg (· ++ "(" ++ key ++ ")") (name_congr same)

end Variable

/-! ### Stores -/

namespace Store

variable {s t : Store}

theorem var?_erase (s : Store) (var : Nat) : s.erase.var? var = (s.var? var).map Variable.erase :=
  List.getElem?_map

theorem var?_cases (same : s.erase = t.erase) (var : Nat) :
    (s.var? var = none ∧ t.var? var = none) ∨
      ∃ v w, s.var? var = some v ∧ t.var? var = some w ∧ v.erase = w.erase := by
  refine option_map_eq_cases ?_
  rw [← var?_erase, same, var?_erase]

theorem map_modify_congr {f g : Variable → Variable}
    (natural : ∀ v w, v.erase = w.erase → (f v).erase = (g w).erase) :
    ∀ (vars vars' : List Variable) (i : Nat), vars.map Variable.erase = vars'.map Variable.erase →
      (vars.modify i f).map Variable.erase = (vars'.modify i g).map Variable.erase := by
  intro vars
  induction vars with
  | nil =>
    intro vars' i same
    rw [nil_of_map_eq same, List.modify_nil, List.modify_nil]
  | cons v vars ih =>
    intro vars' i same
    obtain ⟨w, vars', rfl, first, rest⟩ := cons_of_map_eq same
    cases i with
    | zero => exact congrArg₂ List.cons (natural v w first) rest
    | succ i => exact congrArg₂ List.cons first (ih vars' i rest)

theorem vars_congr (same : s.erase = t.erase) :
    s.current.vars.map Variable.erase = t.current.vars.map Variable.erase :=
  congrArg (fun s => s.current.vars) same

theorem setCurrent_congr (same : s.erase = t.erase) {current current' : Scope}
    (scopes : current.erase = current'.erase) :
    ({ s with current } : Store).erase = ({ t with current := current' } : Store).erase := by
  show ({ s.erase with current := current.erase } : Store) =
    { t.erase with current := current'.erase }
  rw [same, scopes]

theorem update_congr (same : s.erase = t.erase) (var : Nat) {f g : Variable → Variable}
    (natural : ∀ v w, v.erase = w.erase → (f v).erase = (g w).erase) :
    (s.update var f).erase = (t.update var g).erase := by
  refine setCurrent_congr same
    (Scope.eq_of_vars (map_modify_congr (fun v w alike => ?_) _ _ var (vars_congr same)))
  have names : v.name = w.name := (congrArg Variable.name alike :)
  show ({ (f v).erase with name := v.name } : Variable) = { (g w).erase with name := w.name }
  rw [natural v w alike, names]

theorem resolve_congr (same : s.erase = t.erase) (name : String) :
    (s.resolve name).1 = (t.resolve name).1 ∧
      (s.resolve name).2.erase = (t.resolve name).2.erase := by
  have index : s.current.byName = t.current.byName :=
    (congrArg (fun s : Store => s.current.byName) same :)
  cases found : t.current.byName.lookup name with
  | some i =>
    rw [resolve_of_some found, resolve_of_some (index ▸ found)]
    exact ⟨rfl, same⟩
  | none =>
    rw [resolve_of_none found, resolve_of_none (index ▸ found)]
    refine ⟨by simpa using congrArg List.length (vars_congr same), setCurrent_congr same ?_⟩
    refine Scope.eq_of_vars ?_
    show (s.current.vars ++ [({ name } : Variable)]).map Variable.erase =
      (t.current.vars ++ [({ name } : Variable)]).map Variable.erase
    rw [List.map_append, vars_congr same, ← List.map_append]

theorem resolveAll_congr (same : s.erase = t.erase) (names : List String) :
    (resolveAll names s).1 = (resolveAll names t).1 ∧
      (resolveAll names s).2.erase = (resolveAll names t).2.erase := by
  induction names generalizing s t with
  | nil => exact ⟨rfl, same⟩
  | cons name names ih =>
    obtain ⟨first, store⟩ := resolve_congr same name
    obtain ⟨rest, stores⟩ := ih store
    simp only [resolveAll, first, rest, stores, and_self]

theorem pushScope_congr (same : s.erase = t.erase) : s.pushScope.erase = t.pushScope.erase :=
  (congrArg pushScope same :)

theorem popScope_erase (s : Store) : s.popScope.erase = s.erase.popScope := by
  obtain ⟨current, callers, log⟩ := s
  cases callers <;> rfl

theorem note_congr (same : s.erase = t.erase) (line : String) :
    (s.note line).erase = (t.note line).erase :=
  (congrArg (note · line) same :)

theorem observed_congr (same : s.erase = t.erase) : s.observed = t.observed := by
  have counted (vars : List Variable) :
      ((vars.map Variable.erase).filter fun v => !v.observers.isEmpty).length =
        (vars.filter fun v => !v.observers.isEmpty).length := by
    rw [List.filter_map, List.length_map]
    rfl
  rw [observed, observed, ← counted, vars_congr same, counted]

/-! ### Accesses -/

/-- The observers do the same in stores that are the same after erasure. -/
def Respects (fire : Fire) : Prop :=
  ∀ var event s t, s.erase = t.erase → (fire var event s).1 = (fire var event t).1 ∧
    (fire var event s).2.erase = (fire var event t).2.erase

/-- The results of two accesses are the same after erasure. -/
def Same (r r' : Except Fault Value × Store) : Prop :=
  r.1.map Value.erase = r'.1.map Value.erase ∧ r.2.erase = r'.2.erase

variable {fire : Fire} {v v' : Variable} {value value' written written' : Value}
  {access access' : Access} {var : Nat} {index : Option String} {mode : WriteMode}

theorem accessFault_congr (same : v.erase = v'.erase) (action : VariableAction)
    (index : Option String) (reason : String) :
    accessFault action v index reason = accessFault action v' index reason := by
  rw [accessFault, accessFault, Variable.displayName_congr same]

theorem getD_read_congr (same : v.erase = v'.erase) (index : Option String)
    (values : written.erase = written'.erase) :
    ((v.binding.read index).toOption.getD written).erase =
      ((v'.binding.read index).toOption.getD written').erase := by
  rcases map_eq_cases (Variable.read_congr same index) with ⟨a, b, ha, hb, found⟩ | ⟨e, ha, hb⟩
  · rw [ha, hb]
    exact found
  · rw [ha, hb]
    exact values

theorem settle_congr (respects : Respects fire) (alike : v.erase = v'.erase)
    (values : written.erase = written'.erase) (same : s.erase = t.erase) :
    Same (settle fire var v index written s) (settle fire var v' index written' t) := by
  have fired := respects var { kind := .write, name := v.name, index } s t same
  rw [settle, settle, ← Variable.name_congr alike]
  generalize fire var { kind := .write, name := v.name, index } s = x at fired ⊢
  generalize fire var { kind := .write, name := v.name, index } t = y at fired ⊢
  obtain ⟨outcome, s'⟩ := x
  obtain ⟨outcome', t'⟩ := y
  obtain ⟨rfl, stores⟩ := fired
  cases outcome with
  | error reason =>
    exact ⟨congrArg Except.error (accessFault_congr alike .set index reason), stores⟩
  | ok _ =>
    refine ⟨congrArg Except.ok ?_, stores⟩
    rcases var?_cases stores var with ⟨missing, missing'⟩ | ⟨a, b, found, found', now⟩
    · rw [missing, missing']
      exact values
    · rw [found, found']
      exact getD_read_congr now index values

theorem readObserved_congr (alike : v.erase = v'.erase) (same : s.erase = t.erase) :
    Same (readObserved v index s) (readObserved v' index t) := by
  rw [readObserved, readObserved]
  rcases map_eq_cases (Variable.read_congr alike index) with ⟨a, b, ha, hb, found⟩ | ⟨e, ha, hb⟩
  · rw [ha, hb]
    exact ⟨congrArg Except.ok found, same⟩
  · rw [ha, hb]
    exact ⟨congrArg Except.error (accessFault_congr alike .read index e), same⟩

theorem writeObserved_congr (respects : Respects fire) (alike : v.erase = v'.erase)
    (values : value.erase = value'.erase) (same : s.erase = t.erase) :
    Same (writeObserved fire var v index value mode s)
      (writeObserved fire var v' index value' mode t) := by
  rw [writeObserved, writeObserved]
  obtain ⟨outcomes, news⟩ := Variable.write_congr alike index values mode
  generalize v.write index value mode = x at outcomes news ⊢
  generalize v'.write index value' mode = y at outcomes news ⊢
  obtain ⟨outcome, new⟩ := x
  obtain ⟨outcome', new'⟩ := y
  have stores := update_congr same var fun _ _ _ => news
  rcases map_eq_cases outcomes with ⟨written, written', first, second, found⟩ | ⟨e, first, second⟩
  · dsimp only at first second
    rw [first, second]
    exact settle_congr respects alike found stores
  · dsimp only at first second
    rw [first, second]
    exact ⟨congrArg Except.error (accessFault_congr alike .set index e), stores⟩

theorem incrementObserved_congr (respects : Respects fire) (alike : v.erase = v'.erase)
    (amount : Int64) (same : s.erase = t.erase) :
    Same (incrementObserved fire var v index amount s)
      (incrementObserved fire var v' index amount t) := by
  rw [incrementObserved, incrementObserved]
  rcases map_eq_cases (Variable.read_congr alike index) with ⟨a, b, ha, hb, found⟩ | ⟨e, ha, hb⟩
  · rw [ha, hb]
    dsimp only
    rcases map_eq_cases (incremented_congr amount found) with
      ⟨n, k, hn, hk, widened⟩ | ⟨e, hn, hk⟩
    · rw [hn, hk]
      have numbers := Value.ofNumber_congr widened
      refine settle_congr respects alike numbers (update_congr same var fun x y now => ?_)
      refine Variable.setBinding_congr now ?_
      rw [Binding.set_erase, Binding.set_erase, Variable.binding_congr now, numbers]
    · rw [hn, hk]
      exact ⟨rfl, same⟩
  · rw [ha, hb]
    exact ⟨congrArg Except.error (accessFault_congr alike .read index e), same⟩

/-- Runs the observers of a variable before it is read, and goes on with what they leave of it. -/
def afterRead (fire : Fire) (var : Nat) (v : Variable) (index : Option String)
    (k : Variable → Store → Except Fault Value × Store) (s : Store) : Except Fault Value × Store :=
  match fire var { kind := .read, name := v.name, index } s with
  | (.error reason, s) => (.error (accessFault .read v index reason), s)
  | (.ok (), s) => match s.var? var with
    | some v => k v s
    | none => (.error (accessFault .read v index "no such variable"), s)

theorem afterRead_congr (respects : Respects fire) (alike : v.erase = v'.erase)
    {k : Variable → Store → Except Fault Value × Store}
    (goesOn : ∀ {a b s t}, a.erase = b.erase → s.erase = t.erase → Same (k a s) (k b t))
    (same : s.erase = t.erase) :
    Same (afterRead fire var v index k s) (afterRead fire var v' index k t) := by
  have fired := respects var { kind := .read, name := v.name, index } s t same
  rw [afterRead, afterRead, ← Variable.name_congr alike]
  generalize fire var { kind := .read, name := v.name, index } s = x at fired ⊢
  generalize fire var { kind := .read, name := v.name, index } t = y at fired ⊢
  obtain ⟨outcome, s'⟩ := x
  obtain ⟨outcome', t'⟩ := y
  obtain ⟨rfl, stores⟩ := fired
  cases outcome with
  | error reason =>
    exact ⟨congrArg Except.error (accessFault_congr alike .read index reason), stores⟩
  | ok _ =>
    dsimp only
    rcases var?_cases stores var with ⟨missing, missing'⟩ | ⟨a, b, found, found', now⟩
    · rw [missing, missing']
      exact ⟨congrArg Except.error (accessFault_congr alike .read index _), stores⟩
    · rw [found, found']
      exact goesOn now stores

theorem accessObserved_congr (respects : Respects fire) (accesses : access.erase = access'.erase)
    (same : s.erase = t.erase) :
    Same (accessObserved fire var index access s) (accessObserved fire var index access' t) := by
  rw [accessObserved, accessObserved]
  rcases var?_cases same var with ⟨missing, missing'⟩ | ⟨v, v', found, found', alike⟩
  · rw [missing, missing']
    exact ⟨rfl, same⟩
  · rw [found, found']
    cases access with
    | write value mode =>
      cases access' with
      | write value' mode' =>
        obtain ⟨values, rfl⟩ := Access.write.inj accesses
        exact writeObserved_congr respects alike values same
      | _ => cases accesses
    | read =>
      cases access' with
      | read =>
        exact afterRead_congr respects alike (k := fun v s => readObserved v index s)
          readObserved_congr same
      | _ => cases accesses
    | increment amount =>
      cases access' with
      | increment amount' =>
        cases accesses
        exact afterRead_congr respects alike
          (k := fun v s => incrementObserved fire var v index amount s)
          (fun now stores => incrementObserved_congr respects now amount stores) same
      | _ => cases accesses

theorem accessWith_congr (respects : Respects fire) (var : Nat) (index : Option String)
    (accesses : access.erase = access'.erase) (same : s.erase = t.erase) :
    Same (accessWith fire var index access s) (accessWith fire var index access' t) := by
  have direct : ((s.var? var).bind fun v => v.direct? index access).map
      (fun pair => (pair.1.erase, pair.2.erase)) =
      ((t.var? var).bind fun v => v.direct? index access').map
        (fun pair => (pair.1.erase, pair.2.erase)) := by
    rcases var?_cases same var with ⟨missing, missing'⟩ | ⟨v, v', found, found', alike⟩
    · rw [missing, missing']
      rfl
    · rw [found, found', Option.bind_some, Option.bind_some, ← Variable.direct?_erase, alike,
        accesses, Variable.direct?_erase]
  rw [accessWith, accessWith]
  cases taken : (t.var? var).bind fun v => v.direct? index access' with
  | none =>
    rw [taken, Option.map_none, Option.map_eq_none_iff] at direct
    rw [direct]
    exact accessObserved_congr respects accesses same
  | some pair =>
    rw [taken, Option.map_some, Option.map_eq_some_iff] at direct
    obtain ⟨other, taken', agree⟩ := direct
    rw [taken']
    obtain ⟨first, second⟩ := Prod.mk.inj agree
    exact ⟨congrArg Except.ok first, update_congr same var fun _ _ _ => second⟩

theorem accessPartsWith_congr (respects : Respects fire) (name : String) (index : Option String)
    (accesses : access.erase = access'.erase) (same : s.erase = t.erase) :
    Same (accessPartsWith fire name index access s) (accessPartsWith fire name index access' t) := by
  obtain ⟨var, stores⟩ := resolve_congr same name
  show Same (accessWith fire (s.resolve name).1 index access (s.resolve name).2)
    (accessWith fire (t.resolve name).1 index access' (t.resolve name).2)
  rw [var]
  exact accessWith_congr respects _ index accesses stores

theorem accessNamedWith_congr (respects : Respects fire) (full : String)
    (accesses : access.erase = access'.erase) (same : s.erase = t.erase) :
    Same (accessNamedWith fire full access s) (accessNamedWith fire full access' t) :=
  accessPartsWith_congr respects _ _ accesses same

/-! ### Observers -/

theorem Same.cases {x y : Except Fault Value × Store} (same : Same x y) :
    (∃ v w s t, x = (.ok v, s) ∧ y = (.ok w, t) ∧ v.erase = w.erase ∧ s.erase = t.erase) ∨
      ∃ e s t, x = (.error e, s) ∧ y = (.error e, t) ∧ s.erase = t.erase := by
  obtain ⟨outcome, s⟩ := x
  obtain ⟨outcome', t⟩ := y
  obtain ⟨outcomes, stores⟩ := same
  rcases map_eq_cases outcomes with ⟨v, w, first, second, values⟩ | ⟨e, first, second⟩
  · exact .inl ⟨v, w, s, t, by rw [← first], by rw [← second], values, stores⟩
  · exact .inr ⟨e, s, t, by rw [← first], by rw [← second], stores⟩

theorem react_congr (respects : Respects fire) (event : Event) (reaction : Reaction)
    (same : s.erase = t.erase) :
    (react fire event reaction s).1 = (react fire event reaction t).1 ∧
      (react fire event reaction s).2.erase = (react fire event reaction t).2.erase := by
  have accessed (target : String) (access : Access) :=
    (accessNamedWith_congr respects target (Eq.refl access.erase) same).cases
  cases reaction with
  | note tag => exact ⟨rfl, note_congr same _⟩
  | deny message => exact ⟨rfl, same⟩
  | read target =>
    rw [react, react]
    rcases accessed target .read with ⟨v, w, s', t', first, second, values, stores⟩ |
      ⟨e, s', t', first, second, stores⟩
    · rw [first, second]
      dsimp only
      rw [Value.str_congr values]
      exact ⟨rfl, note_congr stores _⟩
    · rw [first, second]
      exact ⟨rfl, stores⟩
  | write target value mode =>
    rw [react, react]
    rcases accessed target (.write value mode) with ⟨v, w, s', t', first, second, _, stores⟩ |
      ⟨e, s', t', first, second, stores⟩
    · rw [first, second]
      exact ⟨rfl, stores⟩
    · rw [first, second]
      exact ⟨rfl, stores⟩
  | increment target amount =>
    rw [react, react]
    rcases accessed target (.increment amount) with ⟨v, w, s', t', first, second, _, stores⟩ |
      ⟨e, s', t', first, second, stores⟩
    · rw [first, second]
      exact ⟨rfl, stores⟩
    · rw [first, second]
      exact ⟨rfl, stores⟩

theorem reactAll_congr (respects : Respects fire) (event : Event) (reactions : List Reaction)
    (same : s.erase = t.erase) :
    (reactAll fire event reactions s).1 = (reactAll fire event reactions t).1 ∧
      (reactAll fire event reactions s).2.erase = (reactAll fire event reactions t).2.erase := by
  induction reactions generalizing s t with
  | nil => exact ⟨rfl, same⟩
  | cons reaction reactions ih =>
    have reacted := react_congr respects event reaction same
    rw [reactAll, reactAll]
    generalize react fire event reaction s = x at reacted ⊢
    generalize react fire event reaction t = y at reacted ⊢
    obtain ⟨outcome, s'⟩ := x
    obtain ⟨outcome', t'⟩ := y
    obtain ⟨rfl, stores⟩ := reacted
    cases outcome with
    | ok _ => exact ih stores
    | error message => exact ⟨rfl, stores⟩

theorem fireTo_respects (depth : Nat) : Respects (fireTo depth) := by
  induction depth with
  | zero => exact fun _ _ _ _ same => ⟨rfl, same⟩
  | succ depth ih =>
    intro var event s t same
    rw [fireTo, fireTo]
    rcases var?_cases same var with ⟨missing, missing'⟩ | ⟨v, v', found, found', alike⟩
    · rw [missing, missing']
      exact ⟨rfl, same⟩
    · rw [found, found']
      dsimp only
      rw [Variable.observers_congr alike, Variable.firing_congr alike]
      split
      · exact ⟨rfl, same⟩
      · have marked (b : Bool) {s t : Store} (same : s.erase = t.erase) :
            (s.update var ({ · with firing := b })).erase =
              (t.update var ({ · with firing := b })).erase :=
          update_congr same var fun _ _ alike =>
            (congrArg (fun v : Variable => { v with firing := b }) alike :)
        obtain ⟨outcome, stores⟩ :=
          reactAll_congr ih event (script v'.observers event.kind) (marked true same)
        exact ⟨outcome, marked false stores⟩

theorem access_congr (var : Nat) (index : Option String) (accesses : access.erase = access'.erase)
    (same : s.erase = t.erase) :
    Same (Store.access var index access s) (Store.access var index access' t) := by
  rw [Store.access, Store.access, observed_congr same]
  exact accessWith_congr (fireTo_respects _) var index accesses same

theorem accessParts_congr (name : String) (index : Option String)
    (accesses : access.erase = access'.erase) (same : s.erase = t.erase) :
    Same (accessParts name index access s) (accessParts name index access' t) := by
  rw [accessParts, accessParts, observed_congr same]
  exact accessPartsWith_congr (fireTo_respects _) name index accesses same

theorem accessNamed_congr (full : String) (accesses : access.erase = access'.erase)
    (same : s.erase = t.erase) :
    Same (accessNamed full access s) (accessNamed full access' t) := by
  rw [accessNamed, accessNamed, observed_congr same]
  exact accessNamedWith_congr (fireTo_respects _) full accesses same

end Store

end CommandVM
