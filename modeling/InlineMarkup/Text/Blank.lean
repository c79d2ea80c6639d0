import InlineMarkup.Text.CodeRanges

/-!
The blank characters: what is trimmed from the ends of a text when no other set is named.
-/
namespace InlineMarkup

def blankRanges : CodeRanges :=
  [(0x85, 0x85), (0xa0, 0xa0), (0x1680, 0x1680), (0x2000, 0x200a), (0x2028, 0x2029),
    (0x202f, 0x202f), (0x205f, 0x205f), (0x3000, 0x3000)]

def isBlank (c : Char) : Bool :=
  if c.toNat < 0x80 then
    (decide (0x9 ≤ c.toNat) && decide (c.toNat ≤ 0xd)) ||
      (decide (0x1c ≤ c.toNat) && decide (c.toNat ≤ 0x20))
  else blankRanges.covers c

end InlineMarkup
