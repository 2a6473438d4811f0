/-!
Blank characters, and the layout between tokens.

The blank characters are those with the Unicode property `White_Space`. A comment runs from a number
sign up to the end of its line; the line feed that ends it is blank like any other.
-/

namespace GrammarKit

/-- The code points with the property `White_Space`, as inclusive ranges. -/
def blankRanges : List (Nat × Nat) :=
  [(0x09, 0x0D), (0x20, 0x20), (0x85, 0x85), (0xA0, 0xA0), (0x1680, 0x1680), (0x2000, 0x200A),
    (0x2028, 0x2029), (0x202F, 0x202F), (0x205F, 0x205F), (0x3000, 0x3000)]

def isBlank (c : Char) : Bool :=
  blankRanges.any fun r => r.1 ≤ c.toNat && c.toNat ≤ r.2

def trim (cs : List Char) : List Char :=
  (((cs.dropWhile isBlank).reverse).dropWhile isBlank).reverse

def trimEnd (cs : List Char) : List Char :=
  (cs.reverse.dropWhile isBlank).reverse

def layoutSource : String := "(?:\\s|#[^\\n]*)*"

def layoutLength (cs : List Char) : Nat := go false cs 0
where
  go : Bool → List Char → Nat → Nat
    | _, [], n => n
    | inComment, c :: cs, n =>
      if inComment then go (c ≠ '\n') cs (n + 1)
      else if c = '#' then go true cs (n + 1)
      else if isBlank c then go false cs (n + 1)
      else n

end GrammarKit
