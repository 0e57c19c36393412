import CommandVM.Proofs.Machine.Perform
import CommandVM.Proofs.Variables.Reachable

/-!
# Instructions that access variables

An instruction finds its variable in a slot of the frame or by a name on the stack. What it does
then is decided by the operands above the name, so where a slot holds the variable of that name,
both ways come to the same.
-/

namespace CommandVM

/-- The values above `below` are the operands of an instruction, the top first. -/
structure Stack.Offers (s : Stack) (operands below : List Value) : Prop where
  slots : s.slots = operands ++ below
  floor : s.floor ≤ below.length

section Operands

variable {m : Machine} {operands below : List Value} {n : Nat} {v : Value}

theorem Stack.Offers.depth {s : Stack} (offers : s.Offers operands below) :
    operands.length ≤ s.depth := by
  have floor := offers.floor
  rw [Stack.depth, Stack.height, offers.slots, List.length_append]
  omega

theorem Stack.Offers.peekAt (offers : m.stack.Offers operands below)
    (operand : operands[n]? = some v) : Action.peekAt n m = (.ok v, m) := by
  have inside : n < operands.length := (List.getElem?_eq_some_iff.mp operand).1
  have deep : n < m.stack.depth := Nat.lt_of_lt_of_le inside offers.depth
  rw [Action.peekAt, Action.inspect, Stack.peekAt, if_pos deep, offers.slots,
    List.getElem?_append_left inside, operand]

theorem Stack.Offers.peekText (offers : m.stack.Offers operands below)
    (operand : operands[n]? = some v) : Action.peekText n m = (.ok v.str, m) :=
  Action.bind_of_ok (offers.peekAt operand)

theorem Stack.Offers.topInteger (offers : m.stack.Offers operands below)
    (operand : operands[0]? = some v) : Frame.topInteger m = Frame.integerOf v m :=
  Action.bind_of_ok (offers.peekAt operand)

theorem Stack.Offers.settle (offers : m.stack.Offers operands below) (v : Value) :
    (Effect.push operands.length v).settle m =
      (.ok (), { m with stack := { m.stack with slots := v :: below } }) := by
  have dropped : Action.discard operands.length m =
      (.ok (), { m with stack := { m.stack with slots := below } }) := by
    rw [Action.discard, Action.reshape, Stack.discard_eq offers.depth, offers.slots,
      List.drop_left]
  exact Action.bind_of_ok dropped

end Operands

/-- How an instruction completes whose access has ended: the value comes in place of the operands,
or the fault is raised and they stay. -/
def Machine.accessed (m : Machine) (pc : Nat) (below : List Value) :
    Except Fault Value × Store → Except Stop (Option Nat) × Machine
  | (.ok v, store) =>
    (.ok (some pc), { m with store, stack := { m.stack with slots := v :: below } })
  | (.error e, store) => (.error (.exception (.ofFault e)), { m with store })

namespace Frame

variable {f : Frame} {invoke : Invoke} {i : Instruction} {operands : List Value} {s : Store}
  {ended : Except Fault Value × Store}

/-- With these operands and variables the instruction completes as an access has ended. -/
def EndsAs (f : Frame) (invoke : Invoke) (i : Instruction) (operands : List Value) (s : Store)
    (ended : Except Fault Value × Store) : Prop :=
  ∀ pc below m, m.store = s → m.stack.Offers operands below →
    f.perform invoke pc i m = m.accessed (pc + i.size) below ended

/-- An access whose end is known, and its value in place of the operands. -/
def pushing (n : Nat) (ended : Except Fault Value × Store) : Action Effect := do
  return .push n (← Action.onStore fun _ => ended)

/-- It is enough to know the end of the access in the store of the machine. -/
theorem pushing_eq (n : Nat) (g : Store → Except Fault Value × Store) (m : Machine) :
    (do return Effect.push n (← Action.onStore g) : Action Effect) m = pushing n (g m.store) m :=
  Action.bind_congr rfl

theorem EndsAs.of_step (stepped : ∀ pc below m, m.store = s → m.stack.Offers operands below →
    f.step invoke pc i m = pushing operands.length ended m) :
    f.EndsAs invoke i operands s ended := by
  intro pc below m same offers
  have stepped := stepped pc below m same offers
  obtain ⟨outcome, store⟩ := ended
  cases outcome with
  | ok v =>
    have pushed : f.step invoke pc i m =
        (.ok (.push operands.length v), { m with store }) := stepped
    have offers : Stack.Offers { m with store }.stack operands below := offers
    exact perform_of_step pushed rfl (offers.settle v)
  | error e =>
    have failed : f.step invoke pc i m =
        (.error (.exception (.ofFault e)), { m with store }) := stepped
    exact Action.bind_of_error failed

end Frame

/-! ### Slots and names -/

/-- The increment by a value, which has to be an integer. -/
def Value.asAmount (v : Value) : Except Fault Access :=
  match v.integer? with
  | some n => .ok (.increment n)
  | none => .error (.expectedInteger v.str)

/-- The instructions that ask the same of a variable: those with a slot, and the one with the name
on the stack. Then come the operands above the name, the index of an element, and the access. -/
inductive Addressing (rest : List Int) :
    List Opcode → Opcode → List Value → Option String → Except Fault Access → Prop where
  | load : Addressing rest [.loadScalar1, .loadScalar4] .loadScalarStk [] none (.ok .read)
  | loadElement (x : Value) : Addressing rest [.loadArray1, .loadArray4] .loadArrayStk [x]
      (some x.str) (.ok .read)
  | store (v : Value) : Addressing rest [.storeScalar1, .storeScalar4] .storeScalarStk [v] none
      (.ok (.write v .set))
  | storeElement (v x : Value) : Addressing rest [.storeArray1, .storeArray4] .storeArrayStk [v, x]
      (some x.str) (.ok (.write v .set))
  | increment (v : Value) : Addressing rest [.incrScalar1] .incrScalarStk [v] none v.asAmount
  | incrementElement (v x : Value) : Addressing rest [.incrArray1] .incrArrayStk [v, x]
      (some x.str) v.asAmount
  | incrementBy : Addressing rest [.incrScalar1Imm] .incrScalarStkImm [] none
      (.ok (.increment (Int64.ofInt (rest.getD 0 0))))
  | incrementElementBy (x : Value) : Addressing rest [.incrArray1Imm] .incrArrayStkImm [x]
      (some x.str) (.ok (.increment (Int64.ofInt (rest.getD 0 0))))

/-- The access of a variable by its parts, if there is one to make. -/
def Store.comply (name : String) (index : Option String) (asked : Except Fault Access)
    (s : Store) : Except Fault Value × Store :=
  match asked with
  | .ok access => s.accessParts name index access
  | .error e => (.error e, s)

theorem Store.access_eq_accessParts {s : Store} {var : Nat} {n : String}
    (resolved : s.resolve n = (var, s)) (index : Option String) (access : Access) :
    s.access var index access = s.accessParts n index access := by
  rw [accessParts, accessPartsWith, resolved]
  rfl

namespace Frame

variable {f : Frame} {invoke : Invoke} {rest : List Int} {ops : List Opcode} {op : Opcode}
  {operands below : List Value} {s : Store} {m : Machine} {name v : Value} {n : String}
  {index : Option String} {asked : Except Fault Access} {k var : Nat}

theorem accessSlot_eq (found : f.slots[k]? = some var)
    (resolved : m.store.resolve n = (var, m.store)) (pc : Nat) (index : Option String)
    (access : Access) : f.accessSlot pc k index access m =
      Action.onStore (fun _ => m.store.accessParts n index access) m := by
  rw [accessSlot, Action.bind_of_ok (entry_of_some found), Action.access,
    Action.onStore, Action.onStore, Store.access_eq_accessParts resolved]

/-- Before an increment the amount is looked at, which may be no integer. -/
theorem increment_pushing (offers : m.stack.Offers operands below)
    (top : operands[0]? = some v) {width : Nat} {next : Int64 → Action Effect}
    (goes : ∀ amount, next amount m =
      pushing width (m.store.comply n index (.ok (.increment amount))) m) :
    (topInteger >>= next) m = pushing width (m.store.comply n index v.asAmount) m := by
  have looked : topInteger m = integerOf v m := offers.topInteger top
  unfold Value.asAmount
  cases view : v.integer? with
  | some amount =>
    have integer : integerOf v m = (.ok amount, m) := by
      rw [integerOf, view]
      rfl
    exact (Action.bind_of_ok (looked.trans integer)).trans (goes amount)
  | none =>
    have other : integerOf v m = (.error (.exception (.ofFault (.expectedInteger v.str))), m) := by
      rw [integerOf, view]
      rfl
    exact Action.bind_of_error (looked.trans other)

/-- The name on the stack is that of the variable. -/
theorem named_endsAs (asks : Addressing rest ops op operands index asked) (named : name.str = n) :
    f.EndsAs invoke ⟨op, rest⟩ (operands ++ [name]) s (s.comply n index asked) := by
  subst named
  refine .of_step fun pc below m same offers => ?_
  subst same
  cases asks with
  | load | incrementBy => exact (Action.bind_of_ok (offers.peekText rfl)).trans (pushing_eq _ _ m)
  | loadElement x | incrementElementBy x =>
    refine (Action.bind_of_ok (offers.peekText rfl)).trans ?_
    exact (Action.bind_of_ok (offers.peekText rfl)).trans (pushing_eq _ _ m)
  | store v =>
    refine (Action.bind_of_ok (offers.peekText rfl)).trans ?_
    exact (Action.bind_of_ok (offers.peekAt rfl)).trans (pushing_eq _ _ m)
  | storeElement v x =>
    refine (Action.bind_of_ok (offers.peekText rfl)).trans ?_
    refine (Action.bind_of_ok (offers.peekText rfl)).trans ?_
    exact (Action.bind_of_ok (offers.peekAt rfl)).trans (pushing_eq _ _ m)
  | increment v =>
    refine increment_pushing offers rfl fun amount => ?_
    exact (Action.bind_of_ok (offers.peekText rfl)).trans (pushing_eq _ _ m)
  | incrementElement v x =>
    refine increment_pushing offers rfl fun amount => ?_
    refine (Action.bind_of_ok (offers.peekText rfl)).trans ?_
    exact (Action.bind_of_ok (offers.peekText rfl)).trans (pushing_eq _ _ m)

/-- The slot holds the variable of the name. -/
theorem slot_endsAs (asks : Addressing rest ops op operands index asked)
    (found : f.slots[k]? = some var) (resolved : s.resolve n = (var, s)) {slotOp : Opcode}
    (member : slotOp ∈ ops) :
    f.EndsAs invoke ⟨slotOp, k :: rest⟩ operands s (s.comply n index asked) := by
  refine .of_step fun pc below m same offers => ?_
  subst same
  have accessed := accessSlot_eq found resolved pc
  cases asks with
  | load =>
    have both : slotOp = .loadScalar1 ∨ slotOp = .loadScalar4 := by simpa using member
    rcases both with rfl | rfl <;> exact Action.bind_congr (accessed none .read)
  | loadElement x =>
    have both : slotOp = .loadArray1 ∨ slotOp = .loadArray4 := by simpa using member
    rcases both with rfl | rfl <;>
      exact (Action.bind_of_ok (offers.peekText rfl)).trans (Action.bind_congr (accessed _ .read))
  | store v =>
    have both : slotOp = .storeScalar1 ∨ slotOp = .storeScalar4 := by simpa using member
    rcases both with rfl | rfl <;>
      exact (Action.bind_of_ok (offers.peekAt rfl)).trans (Action.bind_congr (accessed none _))
  | storeElement v x =>
    have both : slotOp = .storeArray1 ∨ slotOp = .storeArray4 := by simpa using member
    rcases both with rfl | rfl <;>
      exact (Action.bind_of_ok (offers.peekText rfl)).trans
        ((Action.bind_of_ok (offers.peekAt rfl)).trans (Action.bind_congr (accessed _ _)))
  | incrementBy =>
    obtain rfl := List.mem_singleton.mp member
    exact Action.bind_congr (accessed none _)
  | incrementElementBy x =>
    obtain rfl := List.mem_singleton.mp member
    exact (Action.bind_of_ok (offers.peekText rfl)).trans (Action.bind_congr (accessed _ _))
  | increment v =>
    obtain rfl := List.mem_singleton.mp member
    exact increment_pushing offers rfl fun amount => Action.bind_congr (accessed none _)
  | incrementElement v x =>
    obtain rfl := List.mem_singleton.mp member
    refine increment_pushing offers rfl fun amount => ?_
    exact (Action.bind_of_ok (offers.peekText rfl)).trans (Action.bind_congr (accessed _ _))

end Frame

/-! ### Names with an index -/

theorem splitName_indexed {n : String} (nonempty : n ≠ "") (plain : '(' ∉ n.toList) (x : String) :
    splitName (n ++ "(" ++ x ++ ")") = (n, some x) := by
  have text : (n ++ "(" ++ x ++ ")").toList = n.toList ++ '(' :: (x.toList ++ [')']) := by simp
  have outside : ∀ c ∈ n.toList, (c != '(') = true := by
    intro c member
    simp only [bne_iff_ne, ne_eq]
    rintro rfl
    exact plain member
  have name : (n.toList ++ '(' :: (x.toList ++ [')'])).takeWhile (· != '(') = n.toList := by
    rw [List.takeWhile_append_of_pos outside]
    simp
  have inner : (n.toList ++ '(' :: (x.toList ++ [')'])).dropWhile (· != '(') =
      '(' :: (x.toList ++ [')']) := by
    rw [List.dropWhile_append_of_pos outside]
    simp
  have last : (n.toList ++ '(' :: (x.toList ++ [')'])).getLast? = some ')' := by
    rw [← List.cons_append, ← List.append_assoc, List.getLast?_concat]
  unfold splitName
  dsimp only
  rw [text, name, inner, last]
  cases chars : n.toList with
  | nil => exact absurd (String.toList_eq_nil_iff.mp chars) nonempty
  | cons c cs =>
    show (String.ofList (c :: cs), some (String.ofList (x.toList ++ [')']).dropLast)) = (n, some x)
    rw [← chars, String.ofList_toList, List.dropLast_concat, String.ofList_toList]

/-- The opcodes that write to a variable by a text on the stack, and how they do. -/
inductive WritesNamed : Opcode → WriteMode → Prop where
  | store : WritesNamed .storeStk .set
  | append : WritesNamed .appendStk .append
  | listAppend : WritesNamed .lappendStk .listAppend

namespace Frame

variable {f : Frame} {invoke : Invoke} {rest : List Int} {s : Store} {full : Value} {n x : String}

theorem loadStk_endsAs (split : splitName full.str = (n, some x)) :
    f.EndsAs invoke ⟨.loadStk, rest⟩ [full] s (s.accessParts n (some x) .read) := by
  refine .of_step fun pc below m same offers => ?_
  subst same
  have named : m.store.accessParts n (some x) .read = m.store.accessNamed full.str .read := by
    rw [Store.accessNamed, Store.accessNamedWith, split, Store.accessParts]
  rw [named]
  exact (Action.bind_of_ok (offers.peekText rfl)).trans (pushing_eq _ _ m)

theorem storeNamed_endsAs {op : Opcode} {mode : WriteMode} (writes : WritesNamed op mode)
    (split : splitName full.str = (n, some x)) (v : Value) :
    f.EndsAs invoke ⟨op, rest⟩ [v, full] s (s.accessParts n (some x) (.write v mode)) := by
  refine .of_step fun pc below m same offers => ?_
  subst same
  have named : m.store.accessParts n (some x) (.write v mode) =
      m.store.accessNamed full.str (.write v mode) := by
    rw [Store.accessNamed, Store.accessNamedWith, split, Store.accessParts]
  rw [named]
  have stepped :
      storeNamed mode m = pushing 2 (m.store.accessNamed full.str (.write v mode)) m := by
    refine (Action.bind_of_ok (offers.peekText rfl)).trans ?_
    exact (Action.bind_of_ok (offers.peekAt rfl)).trans (pushing_eq _ _ m)
  cases writes <;> exact stepped

end Frame

end CommandVM
