import CommandVM.Proofs.Machine.Sites

/-!
# The places of errors

An error that comes out of an execution got its place once, when the innermost frame was left with
it. Every frame around that one was left with the same error, but for one more line in its trace
for each procedure that was left in between.
-/

namespace CommandVM

/-! ### What is noted of an error -/

namespace Frame

/-- The place of the instruction at `pc`. -/
def place (f : Frame) (pc : Nat) : Location where
  pc
  span := (f.unit.commandAt pc).map fun c => (c.sourceStart.toNat, c.sourceSize.toNat)

/-- What a trace shows of the command around the instruction at `pc`. -/
def segment (f : Frame) (pc : Nat) : String :=
  match (f.unit.commandAt pc).bind f.unit.snippet with
  | some text => "\n    while executing\n\"" ++ Exception.ellipsis text ++ "\""
  | none => ""

theorem blame_eq (f : Frame) (pc : Nat) {e : Exception} (error : e.code = .error)
    (unnoted : e.attributed = false) :
    f.blame pc e = { e with
      attributed := true
      location := some (f.place pc)
      info := e.info ++ f.segment pc } := by
  unfold blame segment
  rw [if_pos error, Exception.attributeTo, unnoted]
  cases (f.unit.commandAt pc).bind f.unit.snippet with
  | none =>
    rw [String.append_empty]
    rfl
  | some text => rfl

end Frame

/-- The lines that procedures add to the trace of an error, the innermost first. -/
def procLines : List String → String
  | [] => ""
  | name :: names => procLines names ++ procLine name

variable {fuel : Nat} {s t : Site} {e left born : Exception} {name : String} {names : List String}
  {u : CompiledUnit} {m m' : Machine}

namespace Site

/-- The frame is left with an error on which it gives up, and which has no place yet. No frame
inside was left with an error. -/
structure Originates (fuel : Nat) (t : Site) (born : Exception) : Prop where
  gaveUp : ∃ m, t.moment.GivesUp (invoker fuel t.level) born m
  error : born.code = .error
  new : born.New
  innermost : ∀ name t' e', t.Calls fuel name t' → t'.Leaves fuel e' → e'.code ≠ .error

/-- The frame of the second site was left with an error, and so was every frame around it up to that
of the first site, each with one more line in the trace. -/
inductive Unwinds (fuel : Nat) (left : Exception) (t : Site) :
    Site → List String → Exception → Prop where
  | here : t.Leaves fuel left → Unwinds fuel left t t [] left
  | call {s s' : Site} {e : Exception} {name : String} {names : List String} :
      s.Calls fuel name s' → Unwinds fuel left t s' names e →
      s.Leaves fuel (e.addInfo (procLine name)) →
      Unwinds fuel left t s (name :: names) (e.addInfo (procLine name))

theorem Unwinds.eq_addInfo (unwinds : Unwinds fuel left t s names e) :
    e = left.addInfo (procLines names) := by
  induction unwinds with
  | here _ => rw [procLines, Exception.addInfo, String.append_empty]
  | call _ _ _ ih =>
    rw [ih]
    simp only [procLines, Exception.addInfo, String.append_assoc]

/-- What a frame gives up on is the error of the procedure that its instruction calls, if there is
one. -/
theorem Calls.eq_of_gaveUp (called : s.Calls fuel name t) (inside : t.Leaves fuel e)
    (error : e.code = .error) (gaveUp : s.moment.GivesUp (invoker fuel s.level) born m) :
    born = e.addInfo (procLine name) := by
  obtain ⟨i, m₁, decoded, raised⟩ := called.raised inside error
  have same {i' : Instruction}
      (again : Instruction.decodeAt s.moment.frame.unit.code s.moment.pc = .ok i')
      (raises : s.moment.frame.perform (invoker fuel s.level) s.moment.pc i' s.moment.machine =
        (.error (.exception born), m)) : born = e.addInfo (procLine name) := by
    rw [decoded] at again
    cases again
    rw [raised] at raises
    cases raises
    rfl
  cases gaveUp with
  | undecodable failed =>
    rw [decoded] at failed
    cases failed
  | malformed decoded raises _ => exact same decoded raises
  | uncaught throws _ => exact same throws.decoded throws.raised

theorem Occurs.unwinds (occurs : s.Occurs fuel) (leaves : s.Leaves fuel e)
    (error : e.code = .error) : ∃ names t born, t.Originates fuel born ∧
      Unwinds fuel (t.moment.frame.blame t.moment.pc born) t s names e := by
  -- A procedure that is called runs in a frame with fewer levels left.
  induction depth : s.level using Nat.strongRecOn generalizing s e with
  | ind n ih =>
    obtain ⟨raised, m, gaveUp, rfl⟩ := leaves.gaveUp
    rw [Frame.code_blame] at error
    have own (new : raised.New) : s.Originates fuel raised := by
      refine ⟨⟨m, gaveUp⟩, error, new, ?_⟩
      intro name t e' called inside failed
      -- An error of a frame inside would have its place already.
      have noted : raised.attributed = true := by
        rw [called.eq_of_gaveUp inside failed gaveUp]
        exact inside.attributed failed
      rw [new.attributed] at noted
      cases noted
    cases source_of_gaveUp occurs.standard gaveUp with
    | new new => exact ⟨[], s, raised, own new, .here leaves⟩
    | @called name t e' called inside completed =>
      rcases Command.procCompletion_cases completed with
        ⟨failed, rfl⟩ | ⟨exit, _, rfl⟩ | ⟨n, other, rfl⟩
      · have lower : t.level < n := depth ▸ called.level_lt
        obtain ⟨names, t₀, born, originates, unwinds⟩ :=
          ih t.level lower (occurs.called called) inside failed rfl
        have noted : (e'.addInfo (procLine name)).attributed = true := inside.attributed failed
        rw [Frame.blame_of_attributed noted] at leaves ⊢
        exact ⟨name :: names, t₀, born, originates, .call called unwinds leaves⟩
      · exact ⟨[], s, _, own (.ofProc name (.fault _)), .here leaves⟩
      · rw [other] at error
        cases error

end Site

theorem Exception.New.info_eq (new : born.New) (error : born.code = .error) :
    ∃ failed : List String, failed.length ≤ 1 ∧
      born.info = born.value.str ++ procLines failed := by
  cases new with
  | own fresh =>
    refine ⟨[], Nat.zero_le 1, ?_⟩
    rw [fresh.info_eq error, procLines, String.append_empty]
  | @ofProc e name fresh =>
    refine ⟨[name], Nat.le_refl 1, ?_⟩
    simp only [Exception.addInfo, fresh.info_eq error, procLines, String.empty_append]

/-- Unless an execution was refused, an error that comes out of it has its place from the innermost
frame that was left with it. Every frame around was left with the same error, with one more line in
its trace; so the trace shows one command at most. -/
theorem errors_attributed_once (standard : m.Standard)
    (raised : Machine.execute fuel u m = (.error (.exception e), m')) (error : e.code = .error) :
    (m.maxNesting ≤ m.nesting ∧ e = .ofFault .nestingLimit) ∨
      ∃ s names t born failed, s.In fuel m.room u m ∧ t.Originates fuel born ∧
        Site.Unwinds fuel (t.moment.frame.blame t.moment.pc born) t s names e ∧
        e.attributed = true ∧ e.location = some (t.moment.frame.place t.moment.pc) ∧
        e.info = e.value.str ++ procLines failed ++ t.moment.frame.segment t.moment.pc ++
          procLines names ∧ failed.length ≤ 1 := by
  rcases executeTo_raised raised with ⟨refused, rfl⟩ | ⟨s, within, leaves⟩
  · left
    refine ⟨?_, rfl⟩
    rw [Machine.room] at refused
    omega
  · right
    have occurs : s.Occurs fuel := ⟨_, _, _, within, standard⟩
    obtain ⟨names, t, born, originates, unwinds⟩ := occurs.unwinds leaves error
    obtain ⟨failed, one, info⟩ := originates.new.info_eq originates.error
    have noted := t.moment.frame.blame_eq t.moment.pc originates.error originates.new.attributed
    refine ⟨s, names, t, born, failed, within, originates, unwinds, leaves.attributed error, ?_⟩
    rw [unwinds.eq_addInfo, noted]
    exact ⟨rfl, by simp only [Exception.addInfo, info], one⟩

/-- Invokes a command without arguments. -/
def callOf (name : String) : CompiledUnit where
  code := [0x01, 0, 0x07, 1, 0x00]
  literals := [.text name]
  maxStack := 1

/-- Raises an error inside a command of its source. -/
def failing : CompiledUnit where
  code := [0x01, 0, 0x01, 1, 0x07, 2, 0x00]
  literals := [.text "error", .text "boom"]
  maxStack := 2
  commands := [⟨0, 6, 2, 10⟩]
  source := some "; error boom"

/-- A machine with a procedure that fails, and one that calls it. -/
def failingMachine : Machine where
  commands := ("outer", .proc "outer" [] (callOf "inner")) ::
    ("inner", .proc "inner" [] failing) :: Machine.standardCommands

theorem failing_attributed_once :
    failingMachine.Standard ∧ ∃ e m',
      Machine.execute 9 (callOf "outer") failingMachine = (.error (.exception e), m') ∧
        e.code = .error ∧ e.location = some ⟨4, some (2, 10)⟩ ∧
        e.info = "boom\n    while executing\n\"error boom\"" ++ procLines ["outer", "inner"] ∧
        ∃ s names t born failed, s.In 9 200 (callOf "outer") failingMachine ∧
          t.Originates 9 born ∧
          Site.Unwinds 9 (t.moment.frame.blame t.moment.pc born) t s names e ∧
          e.attributed = true ∧ e.location = some (t.moment.frame.place t.moment.pc) ∧
          e.info = e.value.str ++ procLines failed ++ t.moment.frame.segment t.moment.pc ++
            procLines names ∧ failed.length ≤ 1 := by
  have told : (Action.exception? (Machine.execute 9 (callOf "outer") failingMachine)).map
      (fun e => (e.code, e.location, e.info)) = some (.error, some ⟨4, some (2, 10)⟩,
        "boom\n    while executing\n\"error boom\"" ++ procLines ["outer", "inner"]) := by
    decide +kernel
  obtain ⟨e, raised, same⟩ := Option.map_eq_some_iff.mp told
  obtain ⟨m', ended⟩ := Action.raised_of_exception? raised
  obtain ⟨code, location, info⟩ : e.code = .error ∧ e.location = some ⟨4, some (2, 10)⟩ ∧
      e.info = _ := by
    rw [Prod.mk.injEq, Prod.mk.injEq] at same
    exact same
  have standard : failingMachine.Standard := by decide
  rcases errors_attributed_once standard ended code with ⟨full, _⟩ | traced
  · exact absurd full (by decide)
  · exact ⟨standard, e, m', ended, code, location, info, traced⟩

end CommandVM
