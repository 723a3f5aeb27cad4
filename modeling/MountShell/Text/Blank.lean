/-!
# Blank characters

The characters that separate words, and the two operations built on them: `trim`, which takes them
off both ends of a text, and `words`, which cuts a text at every run of them.

The class is the Unicode property `White_Space`, which has twenty-five members.
-/

namespace MountShell.Text

/-- The characters with the Unicode property `White_Space`. -/
def isBlank (c : Char) : Bool :=
  let n := c.toNat
  (0x09 ≤ n && n ≤ 0x0D) || n == 0x20 || n == 0x85 || n == 0xA0 || n == 0x1680
    || (0x2000 ≤ n && n ≤ 0x200A) || n == 0x2028 || n == 0x2029 || n == 0x202F || n == 0x205F
    || n == 0x3000

/-- A list without its leading and its trailing members of the class `p`. -/
def stripBoth (p : Char → Bool) (cs : List Char) : List Char :=
  ((cs.dropWhile p).reverse.dropWhile p).reverse

/-- The text without blanks at either end. -/
def trim (s : String) : String :=
  String.ofList (stripBoth isBlank s.toList)

/-- The text without blanks at its start. -/
def trimStart (s : String) : String :=
  String.ofList (s.toList.dropWhile isBlank)

/-- The maximal runs of characters outside the class `p`, in order; `run` holds the open run,
last character first. -/
def runsOutside (p : Char → Bool) : List Char → List Char → List (List Char)
  | [], run => if run.isEmpty then [] else [run.reverse]
  | c :: cs, run =>
    if p c then
      if run.isEmpty then runsOutside p cs [] else run.reverse :: runsOutside p cs []
    else runsOutside p cs (c :: run)

/-- The words of a text: its maximal runs of characters that are not blank. -/
def words (s : String) : List String :=
  (runsOutside isBlank s.toList []).map String.ofList

/-- A text is blank if all its characters are. -/
def allBlank (s : String) : Bool :=
  s.toList.all isBlank

end MountShell.Text
