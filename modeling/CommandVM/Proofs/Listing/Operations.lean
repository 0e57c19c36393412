import CommandVM.Listing.Assembly
import CommandVM.Proofs.Builder.History
import CommandVM.Proofs.ContainerRoundTrip

/-!
# What the assembler keeps of a builder

The assembler drives a builder by operations. So it keeps what all operations keep; operations that
set the limit come from the directive for that alone.
-/

namespace CommandVM.Listing

open CommandVM.Container (bind_eq_ok)

/-- The line has the word for the directive that sets the maximum stack depth. -/
def limitsStack (chars : List Char) : Bool :=
  match tokens chars with
  | .ok ts => ts.contains (.word ".maxstack")
  | .error _ => false

variable {a a' : Assembly} {name : String} {line : Nat} {t : Token} {ts : List Token}

theorem built_eq_ok {made : Except BuildError (Nat × Builder)} (kept : built a made = .ok a') :
    ∃ n, made = .ok (n, a'.builder) := by
  cases made with
  | error e => cases kept
  | ok made =>
    cases kept
    exact ⟨made.1, rfl⟩

section Keeps

variable {P : Builder → Prop}
  (keeps : ∀ b (op : Builder.Op), op.setsLimit = false → P b → P (b.apply op).2)
include keeps

theorem label_keeps (holds : P a.builder) (name : String) (line : Nat) :
    P (a.label name line).2.builder := by
  unfold Assembly.label
  split
  · exact holds
  · exact keeps _ .newLabel rfl holds

theorem define_keeps (holds : P a.builder) (defined : a.define name line = .ok a') :
    P a'.builder := by
  unfold Assembly.define at defined
  dsimp only at defined
  split at defined
  · cases defined
  · split at defined
    · cases defined
    · next builder bound =>
      cases defined
      have applied := keeps _ (.bind (a.label name line).1) rfl (label_keeps keeps holds name line)
      rwa [Builder.apply, bound] at applied

theorem slot_keeps (holds : P a.builder) (text : List Char) :
    P (a.slot text).2.builder := by
  unfold Assembly.slot
  split
  · exact holds
  · exact keeps _ (.localSlot (String.ofList text)) rfl holds

theorem slots_keeps (holds : P a.builder) (texts : List (List Char)) :
    P (Assembly.slots texts a).2.builder := by
  induction texts generalizing a with
  | nil => exact holds
  | cons text texts ih => exact ih (slot_keeps keeps holds text)

theorem operand_keeps (holds : P a.builder) {opcode : Opcode} {first : Bool} {value : Int}
    (read : operand opcode first t a = .ok (value, a')) : P a'.builder := by
  unfold operand at read
  dsimp only at read
  split at read
  · cases read
    exact holds
  · next text =>
    split at read
    · cases read
      exact keeps _ (.literal text) rfl holds
    · split at read
      · cases read
        exact keeps _ (.localSlot text) rfl holds
      · cases read
  · next name =>
    split at read
    · cases read
      exact keeps _ (.localSlot name) rfl holds
    · cases read

theorem operands_keeps (holds : P a.builder) {opcode : Opcode} {first : Bool}
    {values : List Int} (read : operands opcode first ts a = .ok (values, a')) :
    P a'.builder := by
  induction ts generalizing a first values with
  | nil =>
    cases read
    exact holds
  | cons t ts ih =>
    obtain ⟨⟨value, between⟩, here, read⟩ := bind_eq_ok read
    obtain ⟨⟨others, last⟩, there, read⟩ := bind_eq_ok read
    cases read
    exact ih (operand_keeps keeps holds here) there

theorem instruction_keeps (holds : P a.builder)
    (assembled : instruction line name ts a = .ok a') : P a'.builder := by
  unfold instruction at assembled
  split at assembled
  · cases assembled
  · next opcode _ =>
    obtain ⟨_, _, assembled⟩ := bind_eq_ok assembled
    dsimp only at assembled
    generalize placed : ({ a with lines := a.lines ++ [(a.builder.offset, line)] } : Assembly) = start
      at assembled
    have holds : P start.builder := by
      subst placed
      exact holds
    split at assembled
    · next target _ _ _ _ =>
      obtain ⟨n, jumped⟩ := built_eq_ok assembled
      have applied := keeps _ (.jump opcode (start.label target line).1) rfl
        (label_keeps keeps holds target line)
      rwa [Builder.apply, jumped] at applied
    · cases assembled
    · obtain ⟨⟨values, between⟩, read, assembled⟩ := bind_eq_ok assembled
      obtain ⟨n, emitted⟩ := built_eq_ok assembled
      have applied := keeps _ (.emit opcode values) rfl (operands_keeps keeps holds read)
      rwa [Builder.apply, emitted] at applied

theorem labelArg_keeps (holds : P a.builder) {label : Nat}
    (read : labelArg line t a = .ok (label, a')) : P a'.builder := by
  unfold labelArg at read
  split at read
  · next name =>
    have labelled := label_keeps keeps holds name line
    rw [Except.ok.inj read] at labelled
    exact labelled
  · cases read

theorem rangeTarget_keeps (holds : P a.builder) {range : Nat}
    (assembled : rangeTarget line range t a = .ok a') : P a'.builder := by
  obtain ⟨⟨key, target⟩, _, assembled⟩ := bind_eq_ok assembled
  dsimp only at assembled
  have labelled := label_keeps keeps holds (String.ofList target) line
  split at assembled
  · cases assembled
    exact keeps _ (.setBreak range _) rfl labelled
  · cases assembled
    exact keeps _ (.setContinue range _) rfl labelled
  · cases assembled
    exact keeps _ (.setCatch range _) rfl labelled
  · cases assembled

theorem rangeTargets_keeps (holds : P a.builder) {range : Nat}
    (assembled : ts.foldlM (fun a t => rangeTarget line range t a) a = .ok a') :
    P a'.builder := by
  induction ts generalizing a with
  | nil =>
    cases assembled
    exact holds
  | cons t ts ih =>
    rw [List.foldlM_cons] at assembled
    obtain ⟨between, here, assembled⟩ := bind_eq_ok assembled
    exact ih (rangeTarget_keeps keeps holds here) assembled

theorem rangeDirective_keeps (holds : P a.builder)
    (assembled : rangeDirective line ts a = .ok a') : P a'.builder := by
  unfold rangeDirective at assembled
  split at assembled
  · dsimp only at assembled
    split at assembled
    case h_1 | h_2 =>
      obtain ⟨kind, _, assembled⟩ := bind_eq_ok assembled
      obtain ⟨⟨start, first⟩, starts, assembled⟩ := bind_eq_ok assembled
      obtain ⟨⟨stop, second⟩, stops, assembled⟩ := bind_eq_ok assembled
      have bounded := labelArg_keeps keeps (labelArg_keeps keeps holds starts) stops
      exact rangeTargets_keeps keeps (keeps _ (.addRange kind start stop) rfl bounded) assembled
    case h_3 => cases assembled
  · cases assembled

theorem foreachList_keeps (holds : P a.builder) {list : ForeachList}
    (read : foreachList t a = .ok (list, a')) : P a'.builder := by
  obtain ⟨⟨key, spec⟩, _, read⟩ := bind_eq_ok read
  dsimp only at read
  split at read
  · cases read
  · split at read
    · cases read
    · next temp vars _ =>
      cases read
      exact slots_keeps keeps (slot_keeps keeps holds temp) (commaPieces vars)

theorem foreachLists_keeps (holds : P a.builder) {lists : List ForeachList}
    (read : foreachLists ts a = .ok (lists, a')) : P a'.builder := by
  induction ts generalizing a lists with
  | nil =>
    cases read
    exact holds
  | cons t ts ih =>
    obtain ⟨⟨list, between⟩, here, read⟩ := bind_eq_ok read
    obtain ⟨⟨others, last⟩, there, read⟩ := bind_eq_ok read
    cases read
    exact ih (foreachList_keeps keeps holds here) there

theorem foreachDirective_keeps (holds : P a.builder)
    (assembled : foreachDirective ts a = .ok a') : P a'.builder := by
  unfold foreachDirective at assembled
  split at assembled
  · cases assembled
  · obtain ⟨⟨key, slot⟩, _, assembled⟩ := bind_eq_ok assembled
    dsimp only at assembled
    split at assembled
    · cases assembled
    · obtain ⟨⟨lists, between⟩, read, assembled⟩ := bind_eq_ok assembled
      cases assembled
      exact keeps _ (.addForeach _) rfl (foreachLists_keeps keeps (slot_keeps keeps holds slot) read)

theorem commandDirective_keeps (holds : P a.builder)
    (assembled : commandDirective line ts a = .ok a') : P a'.builder := by
  obtain ⟨_, _, assembled⟩ := bind_eq_ok assembled
  dsimp only at assembled
  split at assembled
  · obtain ⟨⟨start, first⟩, starts, assembled⟩ := bind_eq_ok assembled
    obtain ⟨⟨stop, second⟩, stops, assembled⟩ := bind_eq_ok assembled
    obtain ⟨sourceStart, _, assembled⟩ := bind_eq_ok assembled
    obtain ⟨sourceSize, _, assembled⟩ := bind_eq_ok assembled
    cases assembled
    exact keeps _ (.addCommand start stop sourceStart sourceSize) rfl
      (labelArg_keeps keeps (labelArg_keeps keeps holds starts) stops)
  · cases assembled
    exact holds

theorem directive_keeps (holds : P a.builder)
    (limits : name = ".maxstack" → ∀ b depth, P b → P (b.setMaxStack depth))
    (assembled : directive line name ts a = .ok a') : P a'.builder := by
  unfold directive at assembled
  split at assembled
  · obtain ⟨_, _, assembled⟩ := bind_eq_ok assembled
    obtain ⟨text, _, assembled⟩ := bind_eq_ok assembled
    cases assembled
    exact keeps _ (.setSource text) rfl holds
  · obtain ⟨_, _, assembled⟩ := bind_eq_ok assembled
    obtain ⟨name, _, assembled⟩ := bind_eq_ok assembled
    cases assembled
    exact keeps _ (.addLocal name) rfl holds
  · obtain ⟨_, _, assembled⟩ := bind_eq_ok assembled
    obtain ⟨text, _, assembled⟩ := bind_eq_ok assembled
    cases assembled
    exact keeps _ (.addLiteral (.text text)) rfl holds
  · obtain ⟨_, _, assembled⟩ := bind_eq_ok assembled
    obtain ⟨depth, _, assembled⟩ := bind_eq_ok assembled
    cases assembled
    exact limits rfl _ depth holds
  · exact rangeDirective_keeps keeps holds assembled
  · exact commandDirective_keeps keeps holds assembled
  · exact foreachDirective_keeps keeps holds assembled
  · cases assembled

theorem statement_keeps (holds : P a.builder)
    (limits : .word ".maxstack" ∈ ts → ∀ b depth, P b → P (b.setMaxStack depth))
    (assembled : statement line ts a = .ok a') : P a'.builder := by
  unfold statement at assembled
  split at assembled
  · cases assembled
    exact holds
  · split at assembled
    · refine directive_keeps keeps holds ?_ assembled
      rintro rfl
      exact limits List.mem_cons_self
    · exact instruction_keeps keeps holds assembled
  · cases assembled

theorem assembleTokens_keeps (holds : P a.builder)
    (limits : .word ".maxstack" ∈ ts → ∀ b depth, P b → P (b.setMaxStack depth))
    (assembled : assembleTokens line ts a = .ok a') : P a'.builder := by
  unfold assembleTokens at assembled
  split at assembled
  · cases assembled
    exact holds
  · split at assembled
    · exact statement_keeps keeps holds limits assembled
    · cases assembled
    · split at assembled
      · cases assembled
      · next defined =>
        exact statement_keeps keeps (define_keeps keeps holds defined)
          (fun later => limits (List.mem_cons_of_mem _ later)) assembled

theorem assembleLines_keeps (holds : P a.builder) {chars : List (List Char)}
    (limits : chars.any limitsStack = true → ∀ b depth, P b → P (b.setMaxStack depth))
    (assembled : assembleLines line chars a = .ok a') : P a'.builder := by
  induction chars generalizing a line with
  | nil =>
    cases assembled
    exact holds
  | cons first rest ih =>
    unfold assembleLines at assembled
    split at assembled
    · cases assembled
    · next between here =>
      unfold assembleLine at here
      split at here
      · cases here
      · next ts read =>
        refine ih (assembleTokens_keeps keeps holds ?_ here) ?_ assembled
        · intro member
          apply limits
          rw [List.any_cons, limitsStack, read]
          simp [member]
        · intro later
          apply limits
          rw [List.any_cons, later, Bool.or_true]

/-- A unit that is assembled is the end of a builder with all that is kept. -/
theorem assemble_keeps (start : P {}) {text : String} {u : CompiledUnit}
    (limits : (Text.lines text.toList).any limitsStack = true →
      ∀ b depth, P b → P (b.setMaxStack depth))
    (assembled : assemble text = .ok u) : ∃ b, P b ∧ b.finish = .ok u := by
  unfold assemble at assembled
  split at assembled
  · cases assembled
  · next a read =>
    have holds : P a.builder := assembleLines_keeps keeps (a := {}) start limits read
    unfold finish at assembled
    split at assembled
    · cases assembled
    · split at assembled
      · next finished =>
        cases assembled
        exact ⟨a.builder, holds, finished⟩
      · cases assembled

end Keeps

end CommandVM.Listing
