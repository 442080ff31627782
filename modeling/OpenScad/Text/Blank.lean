/-
# White space

The characters with the Unicode property White_Space, which number texts may
start with.

Key definitions: `isBlank`, `trimBlankStart`.
-/
namespace OpenScad
namespace Text

/-- Whether a character has the Unicode property White_Space. -/
def isBlank (c : Char) : Bool :=
  let n := c.toNat
  (9 ≤ n && n ≤ 13) || n == 0x20 || n == 0x85 || n == 0xA0 || n == 0x1680 ||
    (0x2000 ≤ n && n ≤ 0x200A) || n == 0x2028 || n == 0x2029 || n == 0x202F || n == 0x205F ||
    n == 0x3000

/-- A text without its leading white space. -/
def trimBlankStart (text : List Char) : List Char := text.dropWhile isBlank

end Text
end OpenScad
