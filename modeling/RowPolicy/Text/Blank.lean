/-!
# White space

The characters of the Unicode property `White_Space`, and trimming by it.
-/

namespace RowPolicy

namespace Text

def isBlank (c : Char) : Bool :=
  let n := c.toNat
  (0x09 ≤ n && n ≤ 0x0d) || n == 0x20 || n == 0x85 || n == 0xa0 || n == 0x1680
    || (0x2000 ≤ n && n ≤ 0x200a) || n == 0x2028 || n == 0x2029 || n == 0x202f || n == 0x205f
    || n == 0x3000

def trimStart (text : List Char) : List Char := text.dropWhile isBlank

def trimEnd (text : List Char) : List Char := (text.reverse.dropWhile isBlank).reverse

def trim (text : List Char) : List Char := trimEnd (trimStart text)

/-- The parts of a text between the characters of a class; there is one more than there are such
characters. -/
def splitWhen (cls : Char → Bool) : List Char → List (List Char)
  | [] => [[]]
  | c :: rest =>
    match splitWhen cls rest with
    | [] => [[c]]
    | part :: parts => if cls c then [] :: part :: parts else (c :: part) :: parts

end Text

end RowPolicy
