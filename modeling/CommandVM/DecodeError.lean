import CommandVM.Bytes

/-!
# Decoding errors

Why code or a container cannot be decoded, at rest or while it runs.
-/

namespace CommandVM

/-- A table of a unit that operands refer to. -/
inductive Table where
  | literals
  | locals
  | foreach
  | ranges
deriving Repr, DecidableEq

def Table.name : Table → String
  | .literals => "literals"
  | .locals => "locals"
  | .foreach => "foreach"
  | .ranges => "ranges"

inductive ContainerPart where
  | digest
  | code
  | literals
  | ranges
  | maxStack
  | locals
  | foreach
  | commands
  | source
deriving Repr, DecidableEq

def ContainerPart.name : ContainerPart → String
  | .digest => "digest"
  | .code => "code"
  | .literals => "literals"
  | .ranges => "ranges"
  | .maxStack => "max stack"
  | .locals => "locals"
  | .foreach => "foreach"
  | .commands => "commands"
  | .source => "source"

inductive DecodeError where
  | unknownOpcode (offset : Nat) (byte : UInt8)
  | truncated (offset : Nat)
  | jumpOutOfBounds (offset : Nat) (target : Int)
  | indexOutOfRange (offset : Nat) (table : Table) (index : Nat)
  | badMagic
  | unexpectedEnd (part : ContainerPart)
  | invalidUtf8 (part : ContainerPart)
  | invalidRangeKind (byte : UInt8)
  | checksumMismatch
deriving Repr, DecidableEq

namespace DecodeError

def message : DecodeError → String
  | .unknownOpcode offset byte =>
    let hex := Bytes.hexByte byte
    s!"unknown opcode 0x{hex} at offset {offset}"
  | .truncated offset => s!"truncated instruction at offset {offset}"
  | .jumpOutOfBounds offset target => s!"jump at offset {offset} targets {target}, outside the code"
  | .indexOutOfRange offset table index =>
    let name := table.name
    s!"{name} index {index} out of range at offset {offset}"
  | .badMagic => "not a compiled unit (bad magic)"
  | .unexpectedEnd part =>
    let name := part.name
    s!"unexpected end of data in {name} section"
  | .invalidUtf8 part =>
    let name := part.name
    s!"invalid UTF-8 in {name} section"
  | .invalidRangeKind byte =>
    let kind := byte.toNat
    s!"invalid exception range kind: {kind}"
  | .checksumMismatch => "checksum mismatch"

end DecodeError

end CommandVM
