import CommandVM.Verifier.Layout

/-!
# Exception ranges and command locations

The second pass: a range covers whole instructions, has the target that its kind needs, and lies
either outside or inside each range before it. A command location lies in the code and the source.
-/

namespace CommandVM.Verifier

/-- The error of a range that is empty, lies outside the code or splits an instruction. -/
def boundErrors (l : Layout) (range : Nat) (r : ExceptionRange) : List Error :=
  let stopOk := r.stop = l.size || l.isBoundary r.stop
  if l.isBoundary r.start.toNat && stopOk && r.size ≠ 0 then [] else [.rangeOutOfBounds range]

/-- The error of a range without the target that its kind needs. -/
def missingErrors (range : Nat) (r : ExceptionRange) : List Error :=
  let (needed, target) : Option UInt32 × Target := match r.kind with
    | .loop => (r.breakTarget, .breakTarget)
    | .catch => (r.catchTarget, .catchTarget)
  if needed.isNone then [.missingTarget range r.kind target] else []

/-- The error of a target at which no instruction starts. -/
def targetErrors (l : Layout) (range : Nat) (target : Target) : Option UInt32 → List Error
  | none => []
  | some offset =>
    if l.isBoundary offset.toNat then [] else [.badRangeTarget range target offset]

/-- The errors of a range that neither lies inside nor outside a range before it. -/
def orderErrors (earlier : List ExceptionRange) (range : Nat) (r : ExceptionRange) : List Error :=
  (earlier.zipIdx.filter fun (e, _) => !e.encloses r && !e.disjoint r).map fun (_, other) =>
    .rangeOrder range other

/-- The error of a range whose level is not the number of ranges around it, which is counted in 32
bits. -/
def levelErrors (earlier : List ExceptionRange) (range : Nat) (r : ExceptionRange) : List Error :=
  let level := UInt32.ofNat (earlier.filter (·.encloses r)).length
  if r.level = level then [] else [.nestingLevel range level r.level]

def rangeErrors (l : Layout) (earlier : List ExceptionRange) (range : Nat) (r : ExceptionRange) :
    List Error :=
  boundErrors l range r ++ missingErrors range r ++
    targetErrors l range .breakTarget r.breakTarget ++
    targetErrors l range .continueTarget r.continueTarget ++
    targetErrors l range .catchTarget r.catchTarget ++
    orderErrors earlier range r ++ levelErrors earlier range r

/-- The error of a command location outside the code or the source. -/
def commandErrors (u : CompiledUnit) (l : Layout) (index : Nat) (c : CommandLocation) :
    List Error :=
  let codeOk := c.codeStart.toNat + c.codeSize.toNat ≤ l.size
  let sourceOk := match u.source with
    | some text => c.sourceStart.toNat + c.sourceSize.toNat ≤ text.utf8ByteSize
    | none => true
  if codeOk && sourceOk then [] else [.commandOutOfBounds index]

def tableErrors (u : CompiledUnit) (l : Layout) : List Error :=
  u.ranges.zipIdx.flatMap (fun (r, i) => rangeErrors l (u.ranges.take i) i r) ++
    u.commands.zipIdx.flatMap fun (c, i) => commandErrors u l i c

end CommandVM.Verifier
