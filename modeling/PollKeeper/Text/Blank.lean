/-!
# White space

The characters with the Unicode property of white space, and texts that hold nothing else.
-/

namespace PollKeeper.Text

/-- The ranges of white space, ascending and apart. -/
def blankRanges : List (Nat × Nat) :=
  [(0x09, 0x0D), (0x20, 0x20), (0x85, 0x85), (0xA0, 0xA0), (0x1680, 0x1680), (0x2000, 0x200A),
    (0x2028, 0x2029), (0x202F, 0x202F), (0x205F, 0x205F), (0x3000, 0x3000)]

def isBlankChar (c : Char) : Bool :=
  blankRanges.any fun r => r.1 ≤ c.toNat && c.toNat ≤ r.2

def isBlank (s : String) : Bool := s.toList.all isBlankChar

def skipBlank (cs : List Char) : List Char := cs.dropWhile isBlankChar

end PollKeeper.Text
