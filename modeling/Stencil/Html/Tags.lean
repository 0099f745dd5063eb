import Stencil.Text.Blank
import Stencil.Text.Replace
import Stencil.Text.WordChar

/-!
Tags of HTML: text without its tags and comments, and text without the blanks between tags, where
the contents of some elements are kept as they are.
-/

namespace Stencil.Html

def commentSize? (cs : List Char) : Option Nat := do
  let inside ← Text.dropBeginning? "<!--".toList cs
  let (content, _) ← Text.splitAt? "-->".toList inside
  some (content.length + 7)

def tagSize? : List Char → Option Nat
  | '<' :: cs =>
      match cs.dropWhile (· ≠ '>') with
      | [] => none
      | _ :: _ => some ((cs.takeWhile (· ≠ '>')).length + 2)
  | _ => none

/-- A comment or a tag that begins here, and nothing in its place. -/
def removable? (cs : List Char) : Option (Nat × List Char) :=
  ((commentSize? cs).or (tagSize? cs)).map fun size => (size, [])

def stripTags (cs : List Char) : List Char := Text.replaceMatches removable? cs

def preservedNames : List (List Char) :=
  ["pre".toList, "textarea".toList, "script".toList, "style".toList]

def foldCase (c : Char) : Char := if c = 'İ' then 'i' else c.toLower

/-- Whether a character stands for a letter of a name. Two letters have a further form. -/
def isLetterOf (letter c : Char) : Bool :=
  foldCase c == letter || (letter == 's' && c == 'ſ') || (letter == 'i' && c == 'ı')

def afterName? : List Char → List Char → Option (List Char)
  | [], cs => some cs
  | _ :: _, [] => none
  | letter :: name, c :: cs => if isLetterOf letter c then afterName? name cs else none

/-- The text after a name that is written like `name`, but perhaps in another case. -/
def afterSame? : List Char → List Char → Option (List Char)
  | [], cs => some cs
  | _ :: _, [] => none
  | n :: name, c :: cs => if foldCase n == foldCase c then afterSame? name cs else none

def atWordEnd : List Char → Bool
  | [] => true
  | c :: _ => !Text.isWordChar c

def afterClosing? (name : List Char) : List Char → Option (List Char)
  | '<' :: '/' :: cs => do
      let rest ← afterSame? name cs
      match rest.dropWhile Text.isBlank with
      | '>' :: after => some after
      | _ => none
  | _ => none

def findClosing? (name : List Char) : List Char → Option (List Char)
  | [] => none
  | c :: cs =>
      match afterClosing? name (c :: cs) with
      | some after => some after
      | none => findClosing? name cs

/-- The text after an element that begins here and whose contents are kept. -/
def afterPreserved? : List Char → Option (List Char)
  | '<' :: cs =>
      preservedNames.findSome? fun name => do
        let rest ← afterName? name cs
        if atWordEnd rest then findClosing? (cs.take name.length) rest else none
  | _ => none

def blanksBeforeTag (cs : List Char) : Nat :=
  match cs.dropWhile Text.isBlank with
  | '<' :: _ => (cs.takeWhile Text.isBlank).length
  | _ => 0

/-- What is kept of an element with the blanks after it, or of the end of a tag with blanks. -/
def compactable? (cs : List Char) : Option (Nat × List Char) :=
  match afterPreserved? cs with
  | some rest =>
      let kept := cs.take (cs.length - rest.length)
      some (kept.length + blanksBeforeTag rest, kept)
  | none =>
      match cs with
      | '>' :: rest =>
          match blanksBeforeTag rest with
          | 0 => none
          | n + 1 => some (n + 2, ['>'])
      | _ => none

def spaceless (cs : List Char) : List Char :=
  Text.strip (Text.replaceMatches compactable? cs)

end Stencil.Html
