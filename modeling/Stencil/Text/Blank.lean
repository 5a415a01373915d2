/-! Characters with the Unicode property White_Space, and text made of nothing else. -/

namespace Stencil.Text

def isBlank (c : Char) : Bool :=
  let code := c.toNat
  (9 ≤ code && code ≤ 13) || code == 0x20 || code == 0x85 || code == 0xa0 || code == 0x1680
    || (0x2000 ≤ code && code ≤ 0x200a) || code == 0x2028 || code == 0x2029 || code == 0x202f
    || code == 0x205f || code == 0x3000

/-- The blanks within a line of a data file. -/
def isSpaceOrTab (c : Char) : Bool := c == ' ' || c == '\t'

def allBlank (text : List Char) : Bool := text.all isBlank

end Stencil.Text
