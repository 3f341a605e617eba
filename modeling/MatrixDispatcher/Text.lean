import Mathlib.Data.List.MinMax
import MatrixDispatcher.Unicode

/-!
# Python strings

A `str` is a sequence of code points, so it is modelled as a list of characters; slices and
concatenation are then those of lists. The operations below are the ones the dispatcher uses.

* `Str.strip`, `Str.splitWord` — `s.strip()` and `s.split(maxsplit=1)`.
* `Str.splitBlank` — `s.split("\n\n")`.
* `Str.lower` — `s.lower()`.
* `Str.short` — the first eight characters, under which a session is shown.
-/

namespace MatrixDispatcher

/-- A Python `str`. -/
abbrev Str := List Char

/-- Strings are compared as lists. -/
instance : LawfulBEq Str := inferInstanceAs (LawfulBEq (List Char))

/-- A string literal of the source. -/
def lit (s : String) : Str := s.toList

/-- A number in an f-string. -/
def natText (n : Nat) : Str := (toString n).toList

/-- An integer in an f-string. -/
def intText (n : Int) : Str := (toString n).toList

namespace Str

/-- The code points for which `str.isspace` holds. -/
def isSpace (c : Char) : Bool :=
  let n := c.toNat
  (9 ≤ n && n ≤ 13) || (28 ≤ n && n ≤ 32) || n == 0x85 || n == 0xa0 || n == 0x1680 ||
    (0x2000 ≤ n && n ≤ 0x200a) || n == 0x2028 || n == 0x2029 || n == 0x202f || n == 0x205f ||
    n == 0x3000

/-- `s.strip()`. -/
def strip (s : Str) : Str := (s.dropWhile isSpace).reverse.dropWhile isSpace |>.reverse

/-- `s.split(maxsplit=1)` of a string that starts with a word: the word, and the rest after the
blanks that follow it. -/
def splitWord (s : Str) : Str × Str :=
  (s.takeWhile (!isSpace ·), (s.dropWhile (!isSpace ·)).dropWhile isSpace)

/-- `s.split("\n\n")`, with `acc` the reverse of the piece read so far. -/
def splitBlankFrom (acc : Str) : Str → List Str
  | '\n' :: '\n' :: rest => acc.reverse :: splitBlankFrom [] rest
  | c :: rest => splitBlankFrom (c :: acc) rest
  | [] => [acc.reverse]

/-- `s.split("\n\n")`. -/
def splitBlank (s : Str) : List Str := splitBlankFrom [] s

/-- `s.split("\n\n", 1)[-1]`: what follows the first blank line, or all of `s`. -/
def afterBlank (s : Str) : Str :=
  go s
where
  go : Str → Str
  | '\n' :: '\n' :: rest => rest
  | _ :: rest => go rest
  | [] => s

/-- `s.split("\n", 1)[0]`. -/
def firstLine (s : Str) : Str := s.takeWhile (· != '\n')

/-- What `c` is lowered to, whatever stands around it. -/
def lowerChar (c : Char) : Str :=
  if c.toNat < 128 then [c.toLower]
  -- the one letter that is lowered to two characters
  else if c.toNat = 0x130 then [Char.ofNat 0x69, Char.ofNat 0x307]
  else [Char.ofNat (Unicode.lowerPoint c.toNat)]

/-- The first character that is not case-ignorable is a cased one. -/
def startsCased (s : Str) : Bool :=
  (s.dropWhile Unicode.isCaseIgnorable).head?.any Unicode.isCased

/-- `s.lower()` of what follows the reverse of `before`. A capital sigma at the end of a word is
lowered to the final sigma. -/
def lowerFrom (before : Str) : Str → Str
  | [] => []
  | c :: rest =>
    (if c.toNat = 0x3a3 ∧ startsCased before ∧ ¬ startsCased rest then [Char.ofNat 0x3c2]
      else lowerChar c) ++ lowerFrom (c :: before) rest

/-- `s.lower()`. -/
def lower (s : Str) : Str := lowerFrom [] s

/-- `s[:8]`. -/
def short (s : Str) : Str := s.take 8

example : splitBlank ("a\n\n\nb".toList) = ["a".toList, "\nb".toList] := by decide

example : afterBlank ("p\n\nq\n\nr".toList) = "q\n\nr".toList := by decide

example : afterBlank ("p\nq".toList) = "p\nq".toList := by decide

end Str

/-- The first of the elements at which `f` is largest. -/
def latestBy {α : Type} (f : α → Int) (xs : List α) : Option α :=
  -- the order is spelled out, since larger imports give integers others that do not compute
  @List.argmax α Int Int.instLinearOrder.toPartialOrder.toPreorder Int.decLt f xs

theorem mem_of_latestBy {α : Type} {f : α → Int} {xs : List α} {x : α}
    (h : latestBy f xs = some x) : x ∈ xs :=
  List.argmax_mem h

theorem le_of_latestBy {α : Type} {f : α → Int} {xs : List α} {x y : α}
    (h : latestBy f xs = some x) (hy : y ∈ xs) : f y ≤ f x :=
  List.le_of_mem_argmax hy h

theorem latestBy_ne_none {α : Type} {f : α → Int} {xs : List α} {y : α} (hy : y ∈ xs) :
    latestBy f xs ≠ none := fun h => by
  rw [List.argmax_eq_none.mp h] at hy
  cases hy

end MatrixDispatcher
