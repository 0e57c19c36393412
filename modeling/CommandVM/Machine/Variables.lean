import CommandVM.Fault
import CommandVM.Value

/-!
# Variables

A variable is undefined, a scalar or an array. Observers of a variable run before it is read and
after it is written; an observer that touches its own variable does not run again. All accesses are
to the current scope.
-/

namespace CommandVM

/-! ### Accesses and observers -/

/-- How a written value joins the one that is there. -/
inductive WriteMode where
  | set
  | append
  | listAppend
deriving Repr, DecidableEq

inductive Access where
  | read
  | write (value : Value) (mode : WriteMode)
  | increment (amount : Int64)

/-- The two things that observers are told of. -/
inductive EventKind where
  | read
  | write
deriving Repr, DecidableEq

def EventKind.word : EventKind → String
  | .read => "Read"
  | .write => "Write"

structure Event where
  kind : EventKind
  name : String
  index : Option String
deriving Repr, DecidableEq

inductive Reaction where
  /-- Notes the event in the log, after a tag. -/
  | note (tag : String)
  /-- Fails with a message. -/
  | deny (message : String)
  /-- Reads a variable and notes its value in the log. -/
  | read (target : String)
  | write (target : String) (value : Value) (mode : WriteMode)
  | increment (target : String) (amount : Int64)

/-- An observer: the events that it attends to, and what it does then. -/
structure Observer where
  onRead : Bool
  onWrite : Bool
  script : List Reaction

def Observer.attends (o : Observer) (kind : EventKind) : Bool :=
  match kind with
  | .read => o.onRead
  | .write => o.onWrite

/-! ### Variables -/

inductive Binding where
  | undefined
  | scalar (value : Value)
  | array (elements : List (String × Value))

structure Variable where
  name : String
  binding : Binding := .undefined
  observers : List Observer := []
  /-- The observers are running. -/
  firing : Bool := false

def setElement (elements : List (String × Value)) (key : String) (value : Value) :
    List (String × Value) :=
  match elements with
  | [] => [(key, value)]
  | (k, v) :: rest =>
    if k == key then (k, value) :: rest else (k, v) :: setElement rest key value

namespace Binding

/-- The value of a scalar or of an array element, or why there is none. -/
def read (b : Binding) (index : Option String) : Except String Value :=
  match b, index with
  | .undefined, _ => .error "no such variable"
  | .scalar v, none => .ok v
  | .scalar _, some _ => .error "variable isn't array"
  | .array _, none => .error "variable is array"
  | .array elements, some i => match elements.lookup i with
    | some v => .ok v
    | none => .error "no such element in array"

/-- The place of a scalar or of an array element, as the value in it and the binding that has it. A
place that is missing is made, with the empty text in it; or why there can be none. -/
def place (b : Binding) (index : Option String) : Except String (Value × Binding) :=
  match b, index with
  | .undefined, none => .ok (Value.empty, .scalar Value.empty)
  | .undefined, some i => .ok (Value.empty, .array [(i, Value.empty)])
  | .scalar v, none => .ok (v, .scalar v)
  | .scalar _, some _ => .error "variable isn't array"
  | .array _, none => .error "variable is array"
  | .array elements, some i => match elements.lookup i with
    | some v => .ok (v, .array elements)
    | none => .ok (Value.empty, .array (setElement elements i Value.empty))

def set (b : Binding) (index : Option String) (v : Value) : Binding :=
  match b, index with
  | _, none => .scalar v
  | .array elements, some i => .array (setElement elements i v)
  | _, some i => .array [(i, v)]

end Binding

def WriteMode.combine (mode : WriteMode) (old new : Value) : Except String Value :=
  match mode with
  | .set => .ok new
  | .append => .ok (old.append new.str)
  | .listAppend => match old.push new with
    | .ok v => .ok v
    | .error e => .error e.message

/-- The value that an increment leaves: wide stays wide, and a native integer widens when it has
to. -/
def incremented (v : Value) (amount : Int64) : Except Fault Number :=
  match v.number with
  | .ok (.int x) => .ok (.ofInt64 (x.toInt64 + amount))
  | .ok (.wide x) => .ok (.wide (x + amount))
  | _ => .error (.expectedInteger v.str)

namespace Variable

/-- Writes a scalar or an array element. Its place is made first, and stays when the value cannot be
joined to what is there. -/
def write (v : Variable) (index : Option String) (value : Value) (mode : WriteMode) :
    Except String Value × Variable :=
  match v.binding.place index with
  | .error e => (.error e, v)
  | .ok (old, made) => match mode.combine old value with
    | .error e => (.error e, { v with binding := made })
    | .ok new => (.ok new, { v with binding := made.set index new })

/-- The access of a defined scalar without observers that needs no more than the variable. -/
def direct? (v : Variable) (index : Option String) (access : Access) : Option (Value × Variable) :=
  match v.observers, index, v.binding, access with
  | [], none, .scalar current, .read => some (current, v)
  | [], none, .scalar _, .write value .set => some (value, { v with binding := .scalar value })
  | _, _, _, _ => none

def displayName (v : Variable) (index : Option String) : String :=
  match index with
  | some i => v.name ++ "(" ++ i ++ ")"
  | none => v.name

end Variable

/-- The variables of the global level or of one procedure call, and the index of their names, which
has the position of each variable and nothing else. -/
structure Scope where
  vars : List Variable
  byName : List (String × Nat)
  indexed : byName = (vars.map Variable.name).zipIdx
  distinct : (vars.map Variable.name).Nodup

namespace Scope

def empty : Scope := ⟨[], [], rfl, .nil⟩

theorem notMem_of_lookup {s : Scope} {name : String} (fresh : s.byName.lookup name = none) :
    name ∉ s.vars.map Variable.name := by
  intro member
  obtain ⟨i, inside, found⟩ := List.getElem_of_mem member
  have entry : (name, i) ∈ s.byName := by
    rw [s.indexed, List.mk_mem_zipIdx_iff_getElem?, List.getElem?_eq_getElem inside, found]
  simpa using List.lookup_eq_none_iff.mp fresh (name, i) entry

def add (s : Scope) (name : String) (fresh : s.byName.lookup name = none) : Scope where
  vars := s.vars ++ [{ name }]
  byName := s.byName ++ [(name, s.vars.length)]
  indexed := by
    rw [s.indexed, List.map_append, List.zipIdx_append, List.length_map, Nat.zero_add]
    rfl
  distinct := by
    rw [List.map_append, List.nodup_append]
    refine ⟨s.distinct, List.pairwise_singleton _ _, ?_⟩
    intro a member b last same
    rw [same, List.mem_singleton.mp last] at member
    exact notMem_of_lookup fresh member

def resolve (s : Scope) (name : String) : Nat × Scope :=
  match fresh : s.byName.lookup name with
  | some i => (i, s)
  | none => (s.vars.length, s.add name fresh)

theorem names_modify (vars : List Variable) (var : Nat) (f : Variable → Variable) :
    (vars.modify var fun v => { f v with name := v.name }).map Variable.name =
      vars.map Variable.name := by
  refine List.ext_getElem? fun i => ?_
  rw [List.getElem?_map, List.getElem?_map, List.getElem?_modify]
  cases vars[i]? with
  | none => rfl
  | some v => by_cases here : var = i <;> simp [here]

/-- Changes a variable except for its name. -/
def modify (s : Scope) (var : Nat) (f : Variable → Variable) : Scope where
  vars := s.vars.modify var fun v => { f v with name := v.name }
  byName := s.byName
  indexed := by rw [names_modify, s.indexed]
  distinct := by rw [names_modify]; exact s.distinct

end Scope

/-- The name and the index of `name(index)`, or a plain name. -/
def splitName (full : String) : String × Option String :=
  let cs := full.toList
  let name := cs.takeWhile (· != '(')
  let rest := cs.dropWhile (· != '(')
  match name, rest, cs.getLast? with
  | _ :: _, _ :: inner, some ')' => (String.ofList name, some (String.ofList inner.dropLast))
  | _, _, _ => (full, none)

/-! ### The store -/

/-- The scopes, and the notes that observers took. -/
structure Store where
  current : Scope := .empty
  /-- The scopes of the callers, the innermost first. -/
  callers : List Scope := []
  log : List String := []

namespace Store

def var? (s : Store) (var : Nat) : Option Variable := s.current.vars[var]?

def update (s : Store) (var : Nat) (f : Variable → Variable) : Store :=
  { s with current := s.current.modify var f }

def resolve (s : Store) (name : String) : Nat × Store :=
  let (var, current) := s.current.resolve name
  (var, { s with current })

def resolveAll : List String → Store → List Nat × Store
  | [], s => ([], s)
  | name :: names, s =>
    let (var, s) := s.resolve name
    let (vars, s) := resolveAll names s
    (var :: vars, s)

def pushScope (s : Store) : Store := { s with current := .empty, callers := s.current :: s.callers }

def popScope (s : Store) : Store :=
  match s.callers with
  | scope :: callers => { s with current := scope, callers }
  | [] => s

/-- Runs the observers of a variable. -/
abbrev Fire := Nat → Event → Store → Except String Unit × Store

def accessFault (action : VariableAction) (v : Variable) (index : Option String)
    (reason : String) : Fault :=
  .variableAccess action (v.displayName index) reason

/-- Runs the observers of a variable after it was written, and gives its value then. -/
def settle (fire : Fire) (var : Nat) (v : Variable) (index : Option String) (written : Value)
    (s : Store) : Except Fault Value × Store :=
  match fire var { kind := .write, name := v.name, index } s with
  | (.error reason, s) => (.error (accessFault .set v index reason), s)
  | (.ok (), s) =>
    -- An observer may have written the variable too, and then its value counts.
    let value := match s.var? var with
      | some v => (v.binding.read index).toOption.getD written
      | none => written
    (.ok value, s)

def readObserved (v : Variable) (index : Option String) (s : Store) : Except Fault Value × Store :=
  match v.binding.read index with
  | .error reason => (.error (accessFault .read v index reason), s)
  | .ok value => (.ok value, s)

def writeObserved (fire : Fire) (var : Nat) (v : Variable) (index : Option String) (value : Value)
    (mode : WriteMode) (s : Store) : Except Fault Value × Store :=
  match v.write index value mode with
  | (.error reason, new) => (.error (accessFault .set v index reason), s.update var fun _ => new)
  | (.ok written, new) => settle fire var v index written (s.update var fun _ => new)

def incrementObserved (fire : Fire) (var : Nat) (v : Variable) (index : Option String)
    (amount : Int64) (s : Store) : Except Fault Value × Store :=
  match v.binding.read index with
  | .error reason => (.error (accessFault .read v index reason), s)
  | .ok current => match incremented current amount with
    | .error e => (.error e, s)
    | .ok n =>
      let written := Value.ofNumber n
      settle fire var v index written
        (s.update var fun v => { v with binding := v.binding.set index written })

def accessObserved (fire : Fire) (var : Nat) (index : Option String) (access : Access)
    (s : Store) : Except Fault Value × Store :=
  match s.var? var with
  | none => (.error (.variableAccess .read "" "no such variable"), s)
  | some v => match access with
    | .write value mode => writeObserved fire var v index value mode s
    | .read => match fire var { kind := .read, name := v.name, index } s with
      | (.error reason, s) => (.error (accessFault .read v index reason), s)
      | (.ok (), s) => match s.var? var with
        | some v => readObserved v index s
        | none => (.error (accessFault .read v index "no such variable"), s)
    | .increment amount => match fire var { kind := .read, name := v.name, index } s with
      | (.error reason, s) => (.error (accessFault .read v index reason), s)
      | (.ok (), s) => match s.var? var with
        | some v => incrementObserved fire var v index amount s
        | none => (.error (accessFault .read v index "no such variable"), s)

/-- Accesses a variable: directly when nothing else is involved, else with its observers. -/
def accessWith (fire : Fire) (var : Nat) (index : Option String) (access : Access) (s : Store) :
    Except Fault Value × Store :=
  match (s.var? var).bind fun v => v.direct? index access with
  | some (value, new) => (.ok value, s.update var fun _ => new)
  | none => accessObserved fire var index access s

def accessPartsWith (fire : Fire) (name : String) (index : Option String) (access : Access)
    (s : Store) : Except Fault Value × Store :=
  let (var, s) := s.resolve name
  accessWith fire var index access s

def accessNamedWith (fire : Fire) (full : String) (access : Access) (s : Store) :
    Except Fault Value × Store :=
  let (name, index) := splitName full
  accessPartsWith fire name index access s

/-! ### Observers at work -/

def note (s : Store) (line : String) : Store := { s with log := s.log ++ [line] }

def react (fire : Fire) (event : Event) (reaction : Reaction) (s : Store) :
    Except String Unit × Store :=
  match reaction with
  | .note tag =>
    (.ok (), s.note (tag ++ event.kind.word ++ " " ++ event.name ++ " " ++ event.index.getD "-"))
  | .deny message => (.error message, s)
  | .read target => match accessNamedWith fire target .read s with
    | (.ok v, s) => (.ok (), s.note ("saw " ++ v.str))
    | (.error e, s) => (.error e.message, s)
  | .write target value mode => match accessNamedWith fire target (.write value mode) s with
    | (.ok _, s) => (.ok (), s)
    | (.error e, s) => (.error e.message, s)
  | .increment target amount => match accessNamedWith fire target (.increment amount) s with
    | (.ok _, s) => (.ok (), s)
    | (.error e, s) => (.error e.message, s)

def reactAll (fire : Fire) (event : Event) : List Reaction → Store → Except String Unit × Store
  | [], s => (.ok (), s)
  | r :: rs, s => match react fire event r s with
    | (.ok (), s) => reactAll fire event rs s
    | failed => failed

/-- The actions of the observers that attend to an event, in order. -/
def script (observers : List Observer) (kind : EventKind) : List Reaction :=
  (observers.filter (·.attends kind)).flatMap Observer.script

/-- Runs the observers of a variable unless they are running, with the observers of at most `depth`
variables inside one another. -/
def fireTo : Nat → Fire
  | 0, _, _, s => (.ok (), s)
  | depth + 1, var, event, s => match s.var? var with
    | none => (.ok (), s)
    | some v =>
      if v.observers.isEmpty || v.firing then (.ok (), s)
      else
        let s := s.update var ({ · with firing := true })
        let (outcome, s) := reactAll (fireTo depth) event (script v.observers event.kind) s
        -- The mark is taken back also when an observer failed.
        (outcome, s.update var ({ · with firing := false }))

/-- The number of observed variables of the current scope. Each of them runs its observers once at a
time, so no more run inside one another. -/
def observed (s : Store) : Nat :=
  (s.current.vars.filter fun v => !v.observers.isEmpty).length

def access (var : Nat) (index : Option String) (access : Access) (s : Store) :
    Except Fault Value × Store :=
  accessWith (fireTo s.observed) var index access s

def accessParts (name : String) (index : Option String) (access : Access) (s : Store) :
    Except Fault Value × Store :=
  accessPartsWith (fireTo s.observed) name index access s

def accessNamed (full : String) (access : Access) (s : Store) : Except Fault Value × Store :=
  accessNamedWith (fireTo s.observed) full access s

def observe (name : String) (observer : Observer) (s : Store) : Store :=
  let (var, s) := s.resolve (splitName name).1
  s.update var fun v => { v with observers := v.observers ++ [observer] }

end Store

end CommandVM
