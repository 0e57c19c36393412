import CommandVM.Machine.Variables

/-!
# Observers as callbacks

What holds of observers should not hang on the form of their scripts. A callback looks at the store,
takes notes and accesses variables one after another, each time as it chooses by what came before,
and ends with success or failure after finitely many. Observers whose scripts are read as callbacks
do what the scripts say.
-/

namespace CommandVM

/-- A way to access a variable of the current scope. -/
inductive Request where
  | slot (var : Nat) (index : Option String) (access : Access)
  | parts (name : String) (index : Option String) (access : Access)
  | named (full : String) (access : Access)

/-- The request carried out, with observers that follow their scripts. -/
def Request.perform : Request → Store → Except Fault Value × Store
  | .slot var index access => Store.access var index access
  | .parts name index access => Store.accessParts name index access
  | .named full access => Store.accessNamed full access

/-- An access of a variable that was found. -/
structure Target where
  var : Nat
  index : Option String
  access : Access

/-- What a request is about. A variable whose name is new is made undefined. -/
def Request.target : Request → Store → Target × Store
  | .slot var index access, s => (⟨var, index, access⟩, s)
  | .parts name index access, s => (⟨(s.resolve name).1, index, access⟩, (s.resolve name).2)
  | .named full access, s =>
    (⟨(s.resolve (splitName full).1).1, (splitName full).2, access⟩,
      (s.resolve (splitName full).1).2)

/-- What an observer does when it is told of an event. -/
inductive Callback where
  | finish (outcome : Except String Unit)
  /-- Looks at the store, with all that was noted before. -/
  | look (next : Store → Callback)
  /-- Takes a note in the log. -/
  | note (line : String) (rest : Callback)
  /-- Accesses a variable, and goes on by what comes of it. -/
  | access (r : Request) (next : Except Fault Value → Callback)

/-- What each observer does at each event. -/
abbrev Behaviour := Observer → Event → Callback

/-- The reactions of an observer, one after another until one fails. -/
def Callback.ofReactions (event : Event) : List Reaction → Callback
  | [] => .finish (.ok ())
  | .note tag :: rest =>
    .note (tag ++ event.kind.word ++ " " ++ event.name ++ " " ++ event.index.getD "-")
      (ofReactions event rest)
  | .deny message :: _ => .finish (.error message)
  | .read target :: rest => .access (.named target .read) fun
    | .ok v => .note ("saw " ++ v.str) (ofReactions event rest)
    | .error e => .finish (.error e.message)
  | .write target value mode :: rest => .access (.named target (.write value mode)) fun
    | .ok _ => ofReactions event rest
    | .error e => .finish (.error e.message)
  | .increment target amount :: rest => .access (.named target (.increment amount)) fun
    | .ok _ => ofReactions event rest
    | .error e => .finish (.error e.message)

/-- Each observer follows its script at the events that it attends to. -/
def scripted : Behaviour := fun o event =>
  if o.attends event.kind then .ofReactions event o.script else .finish (.ok ())

namespace Store

variable {fire : Fire} {event : Event} {s : Store}

/-- The request carried out, with the observers of variables run as told. -/
def serve (fire : Fire) (r : Request) (s : Store) : Except Fault Value × Store :=
  accessWith fire (r.target s).1.var (r.target s).1.index (r.target s).1.access (r.target s).2

/-- Runs a callback. -/
def runCallback (fire : Fire) : Callback → Store → Except String Unit × Store
  | .finish outcome, s => (outcome, s)
  | .look next, s => runCallback fire (next s) s
  | .note line rest, s => runCallback fire rest (s.note line)
  | .access r next, s => runCallback fire (next (serve fire r s).1) (serve fire r s).2

/-- Goes on after something that has not failed. -/
def andThen (ended : Except String Unit × Store) (next : Store → Except String Unit × Store) :
    Except String Unit × Store :=
  match ended with
  | (.ok (), s) => next s
  | (.error message, s) => (.error message, s)

/-- Runs callbacks until one fails. -/
def runCallbacks (fire : Fire) : List Callback → Store → Except String Unit × Store
  | [], s => (.ok (), s)
  | c :: cs, s => andThen (runCallback fire c s) (runCallbacks fire cs)

/-- `fireTo` for observers of any behaviour. -/
def fireBy (act : Behaviour) : Nat → Fire
  | 0, _, _, s => (.ok (), s)
  | depth + 1, var, event, s => match s.var? var with
    | none => (.ok (), s)
    | some v =>
      if v.observers.isEmpty || v.firing then (.ok (), s)
      else
        let s := s.update var ({ · with firing := true })
        let (outcome, s) := runCallbacks (fireBy act depth) (v.observers.map (act · event)) s
        (outcome, s.update var ({ · with firing := false }))

/-- The request carried out, with observers of any behaviour. -/
def performBy (act : Behaviour) (r : Request) (s : Store) : Except Fault Value × Store :=
  serve (fireBy act s.observed) r s

/-! ### Scripts -/

theorem serve_named (full : String) (access : Access) :
    serve fire (.named full access) s = accessNamedWith fire full access s := rfl

theorem reactAll_cons (r : Reaction) (rest : List Reaction) :
    reactAll fire event (r :: rest) s =
      andThen (react fire event r s) (reactAll fire event rest) := by
  rw [reactAll]
  generalize react fire event r s = reacted
  obtain ⟨outcome, t⟩ := reacted
  cases outcome <;> rfl

theorem reactAll_append (first second : List Reaction) :
    reactAll fire event (first ++ second) s =
      andThen (reactAll fire event first s) (reactAll fire event second) := by
  induction first generalizing s with
  | nil => rfl
  | cons r rest ih =>
    rw [List.cons_append, reactAll_cons, reactAll_cons]
    generalize react fire event r s = reacted
    obtain ⟨outcome, t⟩ := reacted
    cases outcome with
    | ok _ => exact ih
    | error message => rfl

theorem runCallback_ofReactions (reactions : List Reaction) :
    runCallback fire (.ofReactions event reactions) s = reactAll fire event reactions s := by
  induction reactions generalizing s with
  | nil => rfl
  | cons r rest ih =>
    rw [reactAll_cons]
    cases r with
    | note tag => exact ih
    | deny message => rfl
    | read target =>
      rw [Callback.ofReactions, runCallback, serve_named, react]
      generalize accessNamedWith fire target .read s = accessed
      obtain ⟨outcome, t⟩ := accessed
      cases outcome with
      | ok v => exact ih
      | error e => rfl
    | write target _ _ | increment target _ =>
      rw [Callback.ofReactions, runCallback, serve_named, react]
      generalize accessNamedWith fire target _ s = accessed
      obtain ⟨outcome, t⟩ := accessed
      cases outcome with
      | ok v => exact ih
      | error e => rfl

theorem runCallbacks_scripted (observers : List Observer) :
    runCallbacks fire (observers.map (scripted · event)) s =
      reactAll fire event (script observers event.kind) s := by
  induction observers generalizing s with
  | nil => rfl
  | cons o rest ih =>
    have later : runCallbacks fire (rest.map (scripted · event)) =
        reactAll fire event (script rest event.kind) := funext fun t => ih
    rw [List.map_cons, runCallbacks, later]
    cases attends : o.attends event.kind with
    | false =>
      have skipped : script (o :: rest) event.kind = script rest event.kind := by
        simp [script, attends]
      rw [skipped, scripted, attends]
      rfl
    | true =>
      have joined : script (o :: rest) event.kind = o.script ++ script rest event.kind := by
        simp [script, attends]
      rw [joined, reactAll_append, scripted, attends, if_pos rfl, runCallback_ofReactions]

/-- Observers that follow their scripts run as the store runs them. -/
theorem fireBy_scripted (depth : Nat) : fireBy scripted depth = fireTo depth := by
  induction depth with
  | zero => rfl
  | succ depth ih =>
    funext var event s
    rw [fireBy, fireTo]
    cases s.var? var with
    | none => rfl
    | some v =>
      dsimp only
      split
      · rfl
      · rw [ih, runCallbacks_scripted]

theorem performBy_scripted (r : Request) : performBy scripted r s = r.perform s := by
  rw [performBy, fireBy_scripted]
  cases r <;> rfl

end Store

end CommandVM
