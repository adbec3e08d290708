import DbfAnonymizer.Records

/-! The safe memo masks and their self-exclusion. -/
namespace DbfAnonymizer.Transforms

def memoTextMask : Text := ['[', 'M', 'A', 'S', 'K', 'E', 'D', '-', 'M', 'E', 'M', 'O', ']']

def memoTextMaskAlt : Text :=
  ['[', 'M', 'A', 'S', 'K', 'E', 'D', '-', 'M', 'E', 'M', 'O', '-', 'A', 'L', 'T', ']']

def memoBinaryMask : List UInt8 := memoTextMask.map fun c => UInt8.ofNat c.toNat
def memoBinaryMaskAlt : List UInt8 := memoTextMaskAlt.map fun c => UInt8.ofNat c.toNat

def memoUnsupported : Raised :=
  .typed .mappingConstraintInfeasible "transform" "MEMO_UNSUPPORTED_REPRESENTATION"

/-- The mask of a payload, never the payload itself. -/
def memoSafeMask : Value → Except Raised Value
  | .null => .ok .null
  | .text value => .ok (.text (if value = memoTextMask then memoTextMaskAlt else memoTextMask))
  | .binary value => .ok (.binary (if value = memoBinaryMask then memoBinaryMaskAlt else memoBinaryMask))
  | _ => .error memoUnsupported

/-- The mask of a memo field's value: `G` and `P` carry no text, other types carry no memo. -/
def maskMemoValue (dbfType : Char) (value : Value) : Except Raised Value :=
  if dbfType ∉ ['M', 'G', 'P'] then .error memoUnsupported
  else match value with
    | .text text =>
      if dbfType = 'G' ∨ dbfType = 'P' then .error memoUnsupported else memoSafeMask (.text text)
    | value => memoSafeMask value

end DbfAnonymizer.Transforms
