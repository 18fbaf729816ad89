import Stencil.Text.CodeSet
import Stencil.Text.PropertyData
set_option autoImplicit false

namespace Stencil.Text

def alphabetic : CodeSet := CodeSet.read alphabeticData
def numeric : CodeSet := CodeSet.read numericData
def cased : CodeSet := CodeSet.read casedData
def caseIgnorable : CodeSet := CodeSet.read caseIgnorableData
def graphemeExtend : CodeSet := CodeSet.read graphemeExtendData
def unprinted : CodeSet := CodeSet.read unprintedData

def isPrinted (c : Char) : Bool := c == ' ' || !(unprinted.has c || graphemeExtend.has c)

def blankSet : CodeSet :=
  ⟨[(0x9, 0xd), (0x20, 0x20), (0x85, 0x85), (0xa0, 0xa0), (0x1680, 0x1680), (0x2000, 0x200a),
    (0x2028, 0x2029), (0x202f, 0x202f), (0x205f, 0x205f), (0x3000, 0x3000)]⟩

def isBlank (c : Char) : Bool := blankSet.has c

end Stencil.Text
